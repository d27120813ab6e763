import Xv7.File.Model
import Xv7.Lib.Sums

/-!
# Reference counts of open files

Between two calls the reference count of a file is the number of descriptors that point to it.  Within
a call a file can have a reference that is in no descriptor yet, and a release can be due that no file
stands for any more; `Kept n D` is the invariant with the counts `n` and the releases `D` that are due.
Each function of `file.c` moves one reference into or out of `n`, and the calls put the moves together.
-/

namespace Xv7.Ftable

open Function (update update_eq_self update_idem update_of_ne update_self)
open Machine Prog
open Ptable (NPROC)
open Sys (NFILE NOFILE)

variable {v : FileSystem} {s s' : State v} {n m : Fin NFILE → ℕ} {D D' : Effect → ℕ}
  {f g : Fin NFILE} {p np : Fin NPROC} {fd : Fin NOFILE} {h q : ℕ} {w : Bool} {r : Release}

/-! ## The invariant -/

namespace File

/-- What is released when the file is closed. -/
def release (file : File) : Option Release :=
  match file.type, file.pipe, file.ip with
  | .pipe, some p, _ => some (.pipeclose p file.writable)
  | .inode, _, some h => some (.iput h)
  | _, _, _ => none

/-- The pointer that the type asks for is there. -/
def Sound (file : File) : Prop := file.type ≠ .none → file.release.isSome
  deriving Decidable

lemma release_of_none {file : File} (h : file.type = .none) : file.release = none := by
  simp [release, h]

lemma sound_of_none {file : File} (h : file.type = .none) : file.Sound := fun hne => absurd h hne

lemma Sound.cases {file : File} (h : file.Sound) : file.type = .none ∨
    (∃ p, file.type = .pipe ∧ file.pipe = some p) ∨ ∃ h, file.type = .inode ∧ file.ip = some h := by
  unfold Sound release at h
  cases htype : file.type <;> cases hpipe : file.pipe <;> cases hip : file.ip <;> simp_all

end File

/-- An end of the pipe is open. -/
def PipeBuf.isOpen (pipe : PipeBuf) (w : Bool) : Bool := if w then pipe.writeopen else pipe.readopen

namespace State

/-- The number of descriptors that point to a file. -/
def slots (s : State v) (f : Fin NFILE) : ℕ := ∑ p, Table.count (· = some f) (s.ofile p)

/-- The number of files that stand for a release. -/
def owed (s : State v) (r : Release) : ℕ := Table.count (fun file : File => file.release = some r) s.ftable

/-- How often what can be released has been handed out. -/
def given (s : State v) : Release → ℕ
  | .iput h => if h < s.nextIp then 1 else 0
  | .pipeclose p _ => if p < s.nextPipe then 1 else 0

/-- Both ends of the pipe have been closed. -/
def Gone (s : State v) (p : ℕ) : Prop := ∀ w, .release (.pipeclose p w) ∈ s.log

instance (s : State v) (p : ℕ) : Decidable (s.Gone p) := inferInstanceAs (Decidable (∀ _, _))

end State

/-- The page that an effect frees is not used by a later one. -/
def Effect.Before (a b : Effect) : Prop := ∀ p, a = .kfree p → b ≠ .access p

/-- The counts are `n`, and the effects `D` are due: what has been handed out is released, stood for
by one file, or due, and a page without open ends is freed, or that is due. -/
structure Kept (n : Fin NFILE → ℕ) (D : Effect → ℕ) (s : State v) : Prop where
  ref : ∀ f, (s.ftable f).ref = n f
  closed : ∀ f, n f = 0 → (s.ftable f).type = .none
  sound : ∀ f, (s.ftable f).Sound
  due : ∀ r, s.log.count (.release r) + s.owed r + D (.release r) = s.given r
  isOpen : ∀ p w, p < s.nextPipe → ((s.pipes p).isOpen w ↔ .release (.pipeclose p w) ∉ s.log)
  pages : ∀ p, s.log.count (.kfree p) + D (.kfree p) = if s.Gone p then 1 else 0
  order : s.log.Pairwise Effect.Before

/-- Only live processes have descriptors, and the files that `n` counts have a type. -/
structure Ready (n : Fin NFILE → ℕ) (s : State v) : Prop where
  idle : ∀ p, s.life p ≠ .live → ∀ fd, s.ofile p fd = none
  typed : ∀ f, 0 < n f → (s.ftable f).type ≠ .none

/-- The state between two calls. -/
structure Good (s : State v) : Prop where
  kept : Kept s.slots 0 s
  ready : Ready s.slots s

/-! ## Counts after a change -/

lemma owed_setFile (s : State v) (f : Fin NFILE) (file : File) (r : Release) :
    (s.setFile f file).owed r + (if (s.ftable f).release = some r then 1 else 0) =
      s.owed r + if file.release = some r then 1 else 0 :=
  Table.count_update_add s.ftable f file

lemma slots_setFd (s : State v) (p : Fin NPROC) (fd : Fin NOFILE) (x : Option (Fin NFILE))
    (g : Fin NFILE) :
    (s.setFd p fd x).slots g + (if s.ofile p fd = some g then 1 else 0) =
      s.slots g + if x = some g then 1 else 0 := by
  have hsum := Table.sum_update_add (Table.count (· = some g)) s.ofile p (update (s.ofile p) fd x)
  have hcount := Table.count_update_add (p := (· = some g)) (s.ofile p) fd x
  simp only [State.slots, State.setFd] at hsum ⊢
  omega

/-- A descriptor is filled. -/
lemma slots_setFd_some (hfd : s.ofile p fd = none) :
    (s.setFd p fd (some f)).slots = s.slots + Pi.single f 1 := by
  funext g
  have := slots_setFd s p fd (some f) g
  simp only [hfd, reduceCtorEq, if_false, Option.some.injEq] at this
  simp only [Pi.add_apply, Pi.single_apply, eq_comm (a := g)]
  omega

/-- A descriptor is emptied. -/
lemma slots_setFd_none (hfd : s.ofile p fd = some f) :
    s.slots = (s.setFd p fd none).slots + Pi.single f 1 := by
  funext g
  have := slots_setFd s p fd none g
  simp only [hfd, reduceCtorEq, if_false, Option.some.injEq] at this
  simp only [Pi.add_apply, Pi.single_apply, eq_comm (a := g)]
  omega

lemma slots_pos (hfd : s.ofile p fd = some f) : 0 < s.slots f := by
  rw [slots_setFd_none hfd, Pi.add_apply, Pi.single_eq_same]
  exact Nat.succ_pos _

lemma count_record {e a : Effect} :
    (s.record e).log.count a = s.log.count a + if e = a then 1 else 0 := by
  simp only [State.record, List.count_append, List.count_singleton, beq_iff_eq]

lemma mem_record {e a : Effect} : a ∈ (s.record e).log ↔ a ∈ s.log ∨ a = e := by
  simp [State.record]

lemma gone_record {e : Effect} (he : ∀ w, e ≠ .release (.pipeclose q w)) :
    (s.record e).Gone q ↔ s.Gone q := by
  refine forall_congr' fun w => ?_
  rw [mem_record, or_iff_left (he w).symm]

lemma order_record {e : Effect} (hs : s.log.Pairwise Effect.Before)
    (he : ∀ q, .kfree q ∈ s.log → e ≠ .access q) : (s.record e).log.Pairwise Effect.Before := by
  refine List.pairwise_append.mpr ⟨hs, List.pairwise_singleton _ _, fun a ha b hb q hq => ?_⟩
  rw [List.mem_singleton.mp hb]
  exact he q (hq ▸ ha)

lemma given_le (s : State v) (r : Release) : s.given r ≤ 1 := by
  cases r <;> simp only [State.given] <;> split_ifs <;> omega

lemma given_pipeclose_pos : 0 < s.given (.pipeclose q w) ↔ q < s.nextPipe := by
  simp only [State.given]
  split_ifs with hq <;> simp [hq]

/-! ## Steps of the invariant -/

namespace Kept

lemma ref_pos (hk : Kept (n + Pi.single f 1) D s) : (s.ftable f).ref = n f + 1 := by
  rw [hk.ref, Pi.add_apply, Pi.single_eq_same]

/-- A file changes, with its count and what it stands for. -/
lemma setFile {file : File} (hk : Kept n D s) (hn : ∀ g, g ≠ f → m g = n g)
    (href : file.ref = m f) (hclosed : m f = 0 → file.type = .none) (hsound : file.Sound)
    (hdue : ∀ r, D' (.release r) + (if file.release = some r then 1 else 0) =
      D (.release r) + if (s.ftable f).release = some r then 1 else 0)
    (hpages : ∀ q, D' (.kfree q) = D (.kfree q)) : Kept m D' (s.setFile f file) where
  ref g := by
    show (update s.ftable f file g).ref = m g
    rcases eq_or_ne g f with rfl | hg
    · rw [update_self, href]
    · rw [update_of_ne hg, hk.ref, hn g hg]
  closed g := by
    show m g = 0 → (update s.ftable f file g).type = _
    rcases eq_or_ne g f with rfl | hg
    · rwa [update_self]
    · rw [update_of_ne hg, hn g hg]
      exact hk.closed g
  sound g := by
    show (update s.ftable f file g).Sound
    rcases eq_or_ne g f with rfl | hg
    · rwa [update_self]
    · rw [update_of_ne hg]
      exact hk.sound g
  due r := by
    have h1 := hk.due r
    have h2 := owed_setFile s f file r
    have h3 := hdue r
    show s.log.count (.release r) + _ + D' (.release r) = s.given r
    omega
  isOpen := hk.isOpen
  pages q := by
    rw [hpages]
    exact hk.pages q
  order := hk.order

/-- A file changes, and what it stands for is as before. -/
lemma setFile_same {file : File} (hk : Kept n D s) (href : file.ref = n f)
    (htype : file.type = (s.ftable f).type) (hrelease : file.release = (s.ftable f).release) :
    Kept n D (s.setFile f file) := by
  refine hk.setFile (fun _ _ => rfl) href (fun h0 => htype.trans (hk.closed f h0)) ?_
    (fun r => by rw [hrelease]) fun _ => rfl
  intro hne
  rw [hrelease]
  exact hk.sound f (htype ▸ hne)

/-- The descriptors are not part of the invariant. -/
lemma setFd (hk : Kept n D s) (p : Fin NPROC) (fd : Fin NOFILE) (x : Option (Fin NFILE)) :
    Kept n D (s.setFd p fd x) :=
  ⟨hk.ref, hk.closed, hk.sound, hk.due, hk.isOpen, hk.pages, hk.order⟩

/-- The names and the contents of files are not part of the invariant. -/
lemma setNames (hk : Kept n D s) (names : v.Names) (contents : ℕ → List UInt8) :
    Kept n D { s with names, contents } :=
  ⟨hk.ref, hk.closed, hk.sound, hk.due, hk.isOpen, hk.pages, hk.order⟩

/-- What is due has not been released. -/
lemma not_mem_log (hk : Kept n D s) (hr : 0 < D (.release r)) : .release r ∉ s.log ∧ 0 < s.given r := by
  rw [← List.count_eq_zero]
  have := hk.due r
  have hle := given_le s r
  constructor <;> omega

/-- What a file stands for has not been released. -/
lemma not_mem_log_of_file (hk : Kept n D s) (hf : (s.ftable f).release = some r) :
    .release r ∉ s.log ∧ 0 < s.given r := by
  have := hk.due r
  have hle := given_le s r
  have hpos : 0 < s.owed r :=
    Table.count_pos (p := fun file : File => file.release = some r) (f := s.ftable) (i := f) hf
  rw [← List.count_eq_zero]
  constructor <;> omega

/-- The page of a pipe with an open end has not been freed. -/
lemma not_kfree (hk : Kept n D s) (hw : .release (.pipeclose q w) ∉ s.log) : .kfree q ∉ s.log := by
  have := hk.pages q
  rw [if_neg fun hgone => hw (hgone w)] at this
  rw [← List.count_eq_zero]
  omega

/-- An effect that is none of those that are counted. -/
lemma record {e : Effect} (hk : Kept n D s) (hrel : ∀ r, e ≠ .release r) (hfree : ∀ q, e ≠ .kfree q)
    (horder : ∀ q, e = .access q → .kfree q ∉ s.log) : Kept n D (s.record e) where
  ref := hk.ref
  closed := hk.closed
  sound := hk.sound
  due r := by
    rw [count_record, if_neg (hrel r)]
    exact hk.due r
  isOpen q w hq := by
    rw [mem_record, or_iff_left (hrel _).symm]
    exact hk.isOpen q w hq
  pages q := by
    simp only [count_record, if_neg (hfree q), gone_record fun w => hrel _]
    exact hk.pages q
  order := order_record hk.order fun q hq he => horder q he hq

/-- An end of a pipe is closed, or a handle is put. -/
lemma due_record (hk : Kept n (D + Pi.single (.release r) 1) s) (r' : Release) :
    (s.record (.release r)).log.count (.release r') + s.owed r' + D (.release r') =
      s.given r' := by
  have := hk.due r'
  rw [count_record]
  simp only [Pi.add_apply, Pi.single_apply, Effect.release.injEq, eq_comm (a := r')] at this ⊢
  omega

/-- A handle is put. -/
lemma iput (hk : Kept n (D + Pi.single (.release (.iput h)) 1) s) :
    Kept n D (s.record (.release (.iput h))) where
  ref := hk.ref
  closed := hk.closed
  sound := hk.sound
  due := hk.due_record
  isOpen q w hq := by
    rw [mem_record, or_iff_left (by simp)]
    exact hk.isOpen q w hq
  pages q := by
    have := hk.pages q
    simp only [count_record, reduceCtorEq, if_false, gone_record (s := s) (e := .release (.iput h)) (by simp)]
    simpa using this
  order := order_record hk.order (by simp)

/-- The page of a pipe is freed. -/
lemma kfree (hk : Kept n (D + Pi.single (.kfree q) 1) s) : Kept n D (s.record (.kfree q)) where
  ref := hk.ref
  closed := hk.closed
  sound := hk.sound
  due r := by
    have := hk.due r
    rw [count_record]
    show _ + s.owed r + _ = s.given r
    simpa using this
  isOpen p w hp := by
    rw [mem_record, or_iff_left (by simp)]
    exact hk.isOpen p w hp
  pages p := by
    have := hk.pages p
    simp only [count_record, gone_record (s := s) (e := .kfree q) (by simp), Effect.kfree.injEq]
    simp only [Pi.add_apply, Pi.single_apply, Effect.kfree.injEq, eq_comm (a := p)] at this
    omega
  order := order_record hk.order (by simp)

/-- An end of a pipe is closed.  The page is to be freed if the other end is not open. -/
lemma closeEnd {pipe : PipeBuf} (hk : Kept n (D + Pi.single (.release (.pipeclose q w)) 1) s)
    (hw : pipe.isOpen w = false) (hother : pipe.isOpen (!w) = (s.pipes q).isOpen (!w)) :
    Kept n (D + if pipe.isOpen (!w) then 0 else Pi.single (.kfree q) 1)
      ((s.record (.release (.pipeclose q w))).setPipe q pipe) := by
  have hpos : 0 < (D + Pi.single (.release (.pipeclose q w)) 1 : Effect → ℕ)
      (.release (.pipeclose q w)) := by simp
  obtain ⟨hnew, hgiven⟩ := hk.not_mem_log hpos
  have hq := given_pipeclose_pos.mp hgiven
  have hopen : ∀ u, pipe.isOpen u ↔
      .release (.pipeclose q u) ∉ (s.record (.release (.pipeclose q w))).log := by
    intro u
    rw [mem_record]
    rcases eq_or_ne u w with rfl | hu
    · simp [hw]
    · obtain rfl : u = !w := by cases u <;> cases w <;> simp_all
      rw [hother, hk.isOpen q _ hq]
      simp
  refine ⟨hk.ref, hk.closed, hk.sound, fun r => ?_, fun p u hp => ?_, fun p => ?_,
    order_record hk.order (by simp)⟩
  · have := hk.due_record r
    have hzero : (if pipe.isOpen !w then 0 else Pi.single (.kfree q) 1 : Effect → ℕ) (.release r) = 0 := by
      split_ifs <;> simp
    rw [Pi.add_apply, hzero]
    exact this
  · show (update s.pipes q pipe p).isOpen u ↔ _
    rcases eq_or_ne p q with rfl | hpq
    · rw [update_self]
      exact hopen u
    · rw [update_of_ne hpq, hk.isOpen p u hp]
      refine not_congr ?_
      show _ ↔ _ ∈ (s.record (.release (.pipeclose q w))).log
      rw [mem_record, or_iff_left (by simp [hpq])]
  · have hold := hk.pages p
    show (s.record (.release (.pipeclose q w))).log.count _ + _ =
      if (s.record (.release (.pipeclose q w))).Gone p then 1 else 0
    simp only [count_record, reduceCtorEq, if_false, Pi.add_apply, add_zero, ne_eq, not_false_eq_true,
      Pi.single_eq_of_ne] at hold ⊢
    rcases eq_or_ne p q with rfl | hpq
    · have hgone : (s.record (.release (.pipeclose p w))).Gone p ↔ pipe.isOpen (!w) = false := by
        refine ⟨fun hall => ?_, fun hclosed u => ?_⟩
        · by_contra hno
          exact (hopen _).mp (by simpa using hno) (hall _)
        · by_contra hno
          have hu := (hopen u).mpr hno
          cases u <;> cases w <;> simp_all
      rw [if_neg fun hall => hnew (hall w)] at hold
      simp only [hgone]
      cases pipe.isOpen !w <;> simp <;> omega
    · have hzero : (if pipe.isOpen !w then 0 else Pi.single (.kfree q) 1 : Effect → ℕ) (.kfree p) = 0 := by
        split_ifs <;> simp [hpq]
      simp only [hzero, gone_record (s := s) (q := p) (e := .release (.pipeclose q w)) (by simp [Ne.symm hpq])]
      exact hold

/-- A handle is handed out. -/
lemma iget (hk : Kept n D s) (inum : ℕ → ℕ) :
    Kept n (D + Pi.single (.release (.iput s.nextIp)) 1) { s with nextIp := s.nextIp + 1, inum } where
  ref := hk.ref
  closed := hk.closed
  sound := hk.sound
  due r := by
    have := hk.due r
    show s.log.count (.release r) + s.owed r + _ = _
    simp only [Pi.add_apply, Pi.single_apply, Effect.release.injEq]
    cases r with
    | iput h =>
      simp only [State.given, Release.iput.injEq] at this ⊢
      split_ifs at this ⊢ <;> omega
    | pipeclose q w => simpa [State.given] using this
  isOpen := hk.isOpen
  pages q := by
    have := hk.pages q
    show s.log.count _ + _ = if s.Gone q then 1 else 0
    simpa using this
  order := hk.order

/-- A page is handed out for a pipe, with both of its ends. -/
lemma newPipe (hk : Kept n D s) :
    Kept n (D + Pi.single (.release (.pipeclose s.nextPipe true)) 1 +
        Pi.single (.release (.pipeclose s.nextPipe false)) 1)
      { (s.record (.access s.nextPipe)).setPipe s.nextPipe ⟨[], true, true⟩ with
        nextPipe := s.nextPipe + 1 } := by
  have hnot : ∀ w, .release (.pipeclose s.nextPipe w) ∉ s.log := by
    intro w
    have := hk.due (.pipeclose s.nextPipe w)
    simp only [State.given, lt_irrefl, if_false] at this
    rw [← List.count_eq_zero]
    omega
  have hrec := hk.record (e := .access s.nextPipe) (by simp) (by simp) fun q hq => by
    cases hq
    exact hk.not_kfree (hnot true)
  refine ⟨hk.ref, hk.closed, hk.sound, fun r => ?_, fun q w hq => ?_, fun q => ?_, hrec.order⟩
  · have := hrec.due r
    show (s.record (.access s.nextPipe)).log.count _ + (s.record (.access s.nextPipe)).owed r + _ = _
    simp only [Pi.add_apply, Pi.single_apply, Effect.release.injEq]
    cases r with
    | iput h =>
      simp only [State.given, reduceCtorEq, if_false] at this ⊢
      exact this
    | pipeclose q w =>
      have hlt : (s.record (.access s.nextPipe)).nextPipe = s.nextPipe := rfl
      simp only [State.given, Release.pipeclose.injEq, hlt] at this ⊢
      rcases lt_trichotomy q s.nextPipe with hq | rfl | hq
      · simp only [hq, hq.ne, false_and, if_true, if_false] at this ⊢
        rw [if_pos (by omega)]
        omega
      · cases w <;> simp at this ⊢ <;> omega
      · simp only [hq.not_gt, hq.ne', false_and, if_false] at this ⊢
        rw [if_neg (by omega)]
        omega
  · show (update s.pipes s.nextPipe _ q).isOpen w ↔ _
    rcases eq_or_ne q s.nextPipe with rfl | hne
    · rw [update_self]
      have : (PipeBuf.mk [] true true).isOpen w = true := by cases w <;> rfl
      refine iff_of_true this ?_
      show _ ∉ (s.record _).log
      rw [mem_record]
      simp [hnot w]
    · rw [update_of_ne hne]
      exact hrec.isOpen q w (lt_of_le_of_ne (Nat.lt_succ_iff.mp hq) hne)
  · have := hrec.pages q
    show (s.record _).log.count _ + _ = if (s.record _).Gone q then 1 else 0
    simpa using this

/-- The bytes in a pipe are not part of the invariant. -/
lemma setPipe {pipe : PipeBuf} (hk : Kept n D s) (hopen : ∀ w, pipe.isOpen w = (s.pipes q).isOpen w) :
    Kept n D (s.setPipe q pipe) := by
  refine ⟨hk.ref, hk.closed, hk.sound, hk.due, fun p w hp => ?_, hk.pages, hk.order⟩
  show (update s.pipes q pipe p).isOpen w ↔ _
  rcases eq_or_ne p q with rfl | hne
  · rw [update_self, hopen]
    exact hk.isOpen p w hp
  · rw [update_of_ne hne]
    exact hk.isOpen p w hp

end Kept

/-! ## The functions of `file.c` and `pipe.c` -/

/-- What files and devices there are, and what is in them. -/
def State.disk (s : State v) : v.Names × v.Devices × (ℕ → List UInt8) := (s.names, s.devices, s.contents)

/-- The descriptors, the processes and the disk are as before, and so are the types of the files that
`n` counts. -/
structure Frame (n : Fin NFILE → ℕ) (s s' : State v) : Prop where
  ofile : s'.ofile = s.ofile
  life : s'.life = s.life
  disk : s'.disk = s.disk
  types : ∀ f, 0 < n f → (s'.ftable f).type = (s.ftable f).type

lemma Frame.trans {s'' : State v} (h1 : Frame n s s') (h2 : Frame n s' s'') : Frame n s s'' :=
  ⟨h2.ofile.trans h1.ofile, h2.life.trans h1.life, h2.disk.trans h1.disk, fun f hf => (h2.types f hf).trans (h1.types f hf)⟩

/-- The files that a part of the references counts. -/
lemma Frame.left (h : Frame (n + m) s s') : Frame n s s' :=
  ⟨h.ofile, h.life, h.disk, fun f hf => h.types f (Nat.lt_of_lt_of_le hf (Nat.le_add_right _ _))⟩

lemma Frame.slots (hf : Frame n s s') : s'.slots = s.slots := by
  unfold State.slots
  rw [hf.ofile]

/-- One file changes, and its type does not. -/
lemma Frame.setFile {file : File} (htype : 0 < n f → file.type = (s.ftable f).type) :
    Frame n s (s.setFile f file) where
  ofile := rfl
  life := rfl
  disk := rfl
  types g hg := by
    show (update s.ftable f file g).type = _
    rcases eq_or_ne g f with rfl | hne
    · rw [update_self, htype hg]
    · rw [update_of_ne hne]

lemma freeFile_eq_some (hf : s.freeFile = some f) : (s.ftable f).ref = 0 := by
  simpa using List.find?_some hf

/-- `filealloc` adds a reference to a file that had none. -/
lemma Kept.filealloc (hk : Kept n D s) :
    Ends filealloc s (fun r s' => Frame n s s' ∧ match r with
      | none => s' = s
      | some f => n f = 0 ∧ (s'.ftable f).type = .none ∧ (∀ g, g ≠ f → s'.ftable g = s.ftable g) ∧
          Kept (n + Pi.single f 1) D s') (fun _ => False) := by
  simp only [Ftable.filealloc, ends_bind, ends_get]
  cases hfree : s.freeFile with
  | none => exact ⟨⟨rfl, rfl, rfl, fun _ _ => rfl⟩, rfl⟩
  | some f =>
    have h0 : n f = 0 := by rw [← hk.ref, freeFile_eq_some hfree]
    have htype := hk.closed f h0
    simp only [ends_bind, ends_modify, ends_pure]
    refine ⟨Frame.setFile fun _ => rfl, h0, ?_, fun g hg => update_of_ne hg _ _, ?_⟩
    · simp [State.setFile, htype]
    refine hk.setFile (fun g hg => ?_) ?_ (fun _ => htype) (File.sound_of_none htype) (fun r => ?_) fun _ => rfl
    · simp [hg]
    · simp [h0]
    · rw [File.release_of_none htype, File.release_of_none (by exact htype)]

/-- `filedup` adds a reference. -/
lemma Kept.filedup (hk : Kept n D s) (hpos : 0 < n f) :
    Ends (filedup f) s (fun _ s' => Frame n s s' ∧ Kept (n + Pi.single f 1) D s') (fun _ => False) := by
  have href := hk.ref f
  simp only [Ftable.filedup, ends_bind, ends_get]
  rw [if_neg (by omega), ends_modify]
  refine ⟨Frame.setFile fun _ => rfl,
    hk.setFile (fun g hg => ?_) ?_ (fun h0 => ?_) (hk.sound f) (fun r => rfl) fun _ => rfl⟩
  · simp [hg]
  · simp [href]
  · simp at h0

/-- `pipeclose` closes an end. -/
lemma Kept.pipeclose_ends (hk : Kept n (D + Pi.single (.release (.pipeclose q w)) 1) s) :
    Ends (pipeclose q w) s (fun _ s' => Frame n s s' ∧ Kept n D s') (fun _ => False) := by
  have hpos : 0 < (D + Pi.single (.release (.pipeclose q w)) 1 : Effect → ℕ)
      (.release (.pipeclose q w)) := by simp
  have hacc := hk.record (e := .access q) (by simp) (by simp) fun p hp => by
    cases hp
    exact hk.not_kfree (hk.not_mem_log hpos).1
  simp only [pipeclose, ends_bind, ends_get, ends_modify]
  set pipe : PipeBuf := if w = true then { s.pipes q with writeopen := false }
    else { s.pipes q with readopen := false } with hpipe
  have hw : pipe.isOpen w = false := by cases w <;> rfl
  have hother : pipe.isOpen (!w) = (s.pipes q).isOpen (!w) := by cases w <;> rfl
  have hboth : (pipe.readopen = false ∧ pipe.writeopen = false) ↔ pipe.isOpen (!w) = false := by
    cases w <;> simp [PipeBuf.isOpen, hpipe]
  have hclose := hacc.closeEnd hw hother
  simp only [hboth]
  split_ifs with hfree
  · rw [hfree, if_neg (by decide)] at hclose
    exact ⟨⟨rfl, rfl, rfl, fun _ _ => rfl⟩, hclose.kfree⟩
  · rw [Bool.not_eq_false] at hfree
    rw [hfree, if_pos rfl, add_zero] at hclose
    exact ⟨⟨rfl, rfl, rfl, fun _ _ => rfl⟩, hclose⟩

/-- `fileclose` gives a reference up. -/
lemma Kept.fileclose (hk : Kept (n + Pi.single f 1) D s) :
    Ends (fileclose f) s (fun _ s' => Frame n s s' ∧ Kept n D s') (fun _ => False) := by
  have href := hk.ref_pos
  simp only [Ftable.fileclose, ends_bind, ends_get]
  rw [if_neg (by omega)]
  split_ifs with hmore
  · refine ⟨Frame.setFile fun _ => rfl,
      hk.setFile (fun g hg => ?_) ?_ (fun h0 => ?_) (hk.sound f) (fun r => rfl) fun _ => rfl⟩
    · simp [hg]
    · simp [href]
    · omega
  -- The last reference: the file no longer stands for what is released next.
  have h0 : n f = 0 := by omega
  simp only [ends_bind, ends_modify]
  generalize hs1 : s.setFile f _ = s1
  have hframe : Frame n s s1 := hs1 ▸ Frame.setFile fun hpos => absurd h0 hpos.ne'
  have hlast : ∀ D', (∀ r, D' (.release r) = D (.release r) + if (s.ftable f).release = some r then 1 else 0) →
      (∀ q, D' (.kfree q) = D (.kfree q)) → Kept n D' s1 := by
    intro D' hdue hpages
    rw [← hs1]
    refine hk.setFile (fun g hg => ?_) h0.symm (fun _ => rfl) (File.sound_of_none rfl) (fun r => ?_) hpages
    · simp [hg]
    · rw [File.release_of_none rfl, if_neg (by simp), add_zero, hdue]
  rcases (hk.sound f).cases with htype | ⟨q, htype, hpipe⟩ | ⟨h, htype, hip⟩
  · have hrel := File.release_of_none htype
    simp only [htype]
    exact ⟨hframe, hlast D (fun r => by simp [hrel]) fun _ => rfl⟩
  · have hrel : (s.ftable f).release = some (.pipeclose q (s.ftable f).writable) := by
      simp [File.release, htype, hpipe]
    simp only [htype, hpipe]
    have hk1 := hlast (D + Pi.single (.release (.pipeclose q (s.ftable f).writable)) 1)
      (fun r => by simp [hrel, Pi.single_apply, eq_comm]) fun _ => by simp
    exact hk1.pipeclose_ends.mono fun _ s' hs' => ⟨hframe.trans hs'.1, hs'.2⟩
  · have hrel : (s.ftable f).release = some (.iput h) := by simp [File.release, htype, hip]
    simp only [htype, hip]
    have hk1 := hlast (D + Pi.single (.release (.iput h)) 1)
      (fun r => by simp [hrel, Pi.single_apply, eq_comm]) fun _ => by simp
    exact ⟨⟨hframe.ofile, hframe.life, hframe.disk, hframe.types⟩, hk1.iput⟩

/-- A file that stood for nothing takes over what is due. -/
lemma Kept.adopt (f : Fin NFILE) (file : File) (hk : Kept n (D + Pi.single (.release r) 1) s)
    (hnone : (s.ftable f).type = .none) (href : file.ref = (s.ftable f).ref) (hpos : 0 < n f)
    (hrel : file.release = some r) : Kept n D (s.setFile f file) := by
  refine hk.setFile (fun _ _ => rfl) (href.trans (hk.ref f)) (fun h0 => absurd h0 hpos.ne')
    (fun _ => by rw [hrel]; rfl) (fun r' => ?_) fun _ => by simp
  rw [File.release_of_none hnone, hrel]
  simp [Pi.single_apply, eq_comm]

/-- `pipealloc` has references to two files that are the ends of a new pipe, or none. -/
lemma Kept.pipealloc {page : Bool} (hk : Kept n D s) :
    Ends (pipealloc page) s (fun r s' => Frame n s s' ∧ match r with
      | none => Kept n D s'
      | some (f0, f1) => Kept (n + Pi.single f0 1 + Pi.single f1 1) D s' ∧
          (s'.ftable f0).type = .pipe ∧ (s'.ftable f1).type = .pipe) (fun _ => False) := by
  unfold Ftable.pipealloc
  refine hk.filealloc.bind fun r s1 hs1 => ?_
  obtain ⟨hf1, hs1⟩ := hs1
  cases r with
  | none =>
    subst hs1
    exact ⟨hf1, hk⟩
  | some f0 =>
    obtain ⟨h0₁, htype1, -, hk1⟩ := hs1
    refine hk1.filealloc.bind fun r s2 hs2 => ?_
    obtain ⟨hf2, hs2⟩ := hs2
    have hf2 := hf2.left
    cases r with
    | none =>
      subst hs2
      refine hk1.fileclose.bind fun _ s3 hs3 => ?_
      exact ⟨(hf1.trans hf2).trans hs3.1, hs3.2⟩
    | some f1 =>
      obtain ⟨h0, htype2, hsame, hk2⟩ := hs2
      have hne : f0 ≠ f1 := by
        rintro rfl
        simp at h0
      cases page with
      | false =>
        rw [add_right_comm] at hk2
        refine hk2.fileclose.bind fun _ s3 hs3 => ?_
        refine hs3.2.fileclose.bind fun _ s4 hs4 => ?_
        exact ⟨((hf1.trans hf2).trans hs3.1.left).trans hs4.1, hs4.2⟩
      | true =>
        have htype0 : (s2.ftable f0).type = .none := by rw [hsame f0 hne, htype1]
        simp only [Bool.true_eq_false, if_false, ends_bind, ends_get, ends_modify, ends_pure]
        have h0₂ : n f1 = 0 := by
          simp only [Pi.add_apply] at h0
          omega
        have hf := hf1.trans hf2
        refine ⟨⟨hf.ofile, hf.life, hf.disk, fun g hg => ?_⟩, ?_, ?_, ?_⟩
        · have hg0 : g ≠ f0 := by
            rintro rfl
            omega
          have hg1 : g ≠ f1 := by
            rintro rfl
            omega
          rw [← hf.types g hg]
          simp [State.setFile, State.setPipe, State.record, hg0, hg1]
        rotate_left
        · simp [State.setFile, hne]
        · simp [State.setFile]
        have hk4 := hk2.newPipe.adopt f0 { s2.ftable f0 with
          type := .pipe, readable := true, writable := false, pipe := some s2.nextPipe } htype0 rfl
          (by simp) rfl
        refine hk4.adopt _ _ ?_ rfl (by simp) rfl
        show (update s2.ftable f0 _ f1).type = _
        rw [update_of_ne hne.symm, htype2]

/-! ## The calls -/

lemma freeFd_eq_some (hf : s.freeFd p = some fd) : s.ofile p fd = none := by
  simpa using List.find?_some hf

lemma fdalloc_ends (s : State v) (p : Fin NPROC) (f : Fin NFILE) :
    Ends (fdalloc p f) s (fun r s' => match r with
      | none => s' = s
      | some fd => s.ofile p fd = none ∧ s' = s.setFd p fd (some f)) (fun _ => False) := by
  simp only [fdalloc, ends_bind, ends_get]
  cases hfree : s.freeFd p with
  | none => rfl
  | some fd => exact ⟨freeFd_eq_some hfree, rfl⟩

/-- A call with a descriptor. -/
lemma ends_withFd {x : ℤ} {call : Fin NOFILE → Fin NFILE → Kernel v Result}
    {Q : Result → State v → Prop} {E : Panic → Prop} (hno : Q (.ret (-1)) s)
    (hcall : ∀ fd f, s.ofile p fd = some f → Ends (call fd f) s Q E) : Ends (withFd p x call) s Q E := by
  simp only [withFd, ends_bind, ends_get]
  split_ifs with hx
  · cases hfd : s.ofile p ⟨x.toNat, by omega⟩ with
    | none => exact hno
    | some f => exact hcall _ f hfd
  · exact hno

lemma Ready.of_frame (hr : Ready n s) (hf : Frame n s s') : Ready n s' where
  idle p hp fd := by
    rw [hf.ofile]
    exact hr.idle p (hf.life ▸ hp) fd
  typed f hpos := by
    rw [hf.types f hpos]
    exact hr.typed f hpos

lemma Ready.setFd (hr : Ready n s) (hp : s.life p = .live) (fd : Fin NOFILE)
    (x : Option (Fin NFILE)) :
    Ready n (s.setFd p fd x) where
  idle p' hp' fd' := by
    have hne : p' ≠ p := by
      rintro rfl
      exact hp' hp
    show update s.ofile p _ p' fd' = none
    rw [update_of_ne hne]
    exact hr.idle p' hp' fd'
  typed := hr.typed

/-- One more file has a type. -/
lemma Ready.add (hr : Ready n s) (hf : (s.ftable f).type ≠ .none) : Ready (n + Pi.single f 1) s where
  idle := hr.idle
  typed g hpos := by
    rcases eq_or_ne g f with rfl | hne
    · exact hf
    · exact hr.typed g (by simpa [hne] using hpos)

/-- A file gets a type. -/
lemma Ready.setFile {file : File} (hr : Ready n s) (hfile : file.type ≠ .none) :
    Ready (n + Pi.single f 1) (s.setFile f file) where
  idle := hr.idle
  typed g hpos := by
    show (update s.ftable f file g).type ≠ _
    rcases eq_or_ne g f with rfl | hne
    · rwa [update_self]
    · rw [update_of_ne hne]
      exact hr.typed g (by simpa [hne] using hpos)

lemma Ready.left (hr : Ready (n + m) s) : Ready n s :=
  ⟨hr.idle, fun f hf => hr.typed f (Nat.lt_of_lt_of_le hf (Nat.le_add_right _ _))⟩

/-- A call that has left the descriptors as they were. -/
lemma Good.of_frame (hg : Good s) (hf : Frame s.slots s s') (hk : Kept s.slots 0 s') : Good s' := by
  have hr := hg.ready.of_frame hf
  rw [← hf.slots] at hk hr
  exact ⟨hk, hr⟩

/-- A reference is put into a descriptor. -/
lemma Kept.setFd_some (hk : Kept (s.slots + Pi.single f 1) D s) (hfd : s.ofile p fd = none) :
    Kept (s.setFd p fd (some f)).slots D (s.setFd p fd (some f)) := by
  rw [slots_setFd_some hfd]
  exact hk.setFd _ _ _

/-- A reference is taken out of a descriptor. -/
lemma Kept.setFd_none (hk : Kept s.slots D s) (hfd : s.ofile p fd = some f) :
    Kept ((s.setFd p fd none).slots + Pi.single f 1) D (s.setFd p fd none) := by
  rw [← slots_setFd_none hfd]
  exact hk.setFd _ _ _

lemma Good.sysDup {x : ℤ} (hg : Good s) (hp : s.life p = .live) :
    Ends (sysDup p x) s (fun _ s' => Good s') (fun _ => False) := by
  refine ends_withFd hg fun fd f hfd => ?_
  have hpos := slots_pos hfd
  refine (fdalloc_ends s p f).bind fun r s1 hs1 => ?_
  cases r with
  | none =>
    subst hs1
    exact hg
  | some fd' =>
    obtain ⟨hfree, rfl⟩ := hs1
    refine ((hg.kept.setFd _ _ _).filedup hpos).bind fun _ s2 hs2 => ?_
    obtain ⟨hf, hk⟩ := hs2
    have hr := (hg.ready.setFd hp _ _).of_frame hf
    have hr' := hr.add (hr.typed f hpos)
    rw [← slots_setFd_some hfree, ← hf.slots] at hk hr'
    exact ⟨hk, hr'⟩

lemma Good.sysClose {x : ℤ} (hg : Good s) (hp : s.life p = .live) :
    Ends (sysClose p x) s (fun _ s' => Good s') (fun _ => False) := by
  refine ends_withFd hg fun fd f hfd => ?_
  rw [ends_bind, ends_modify]
  have hr := hg.ready.setFd hp fd none
  rw [slots_setFd_none hfd] at hr
  refine (hg.kept.setFd_none hfd).fileclose.bind fun _ s1 hs1 => ?_
  obtain ⟨hf, hk⟩ := hs1
  have hr1 := hr.left.of_frame hf
  rw [← hf.slots] at hk hr1
  exact ⟨hk, hr1⟩

lemma Kept.openInode {omode : BitVec 32} (hk : Kept s.slots (Pi.single (.release (.iput h)) 1) s)
    (hr : Ready s.slots s) (hp : s.life p = .live) :
    Ends (openInode p h omode) s (fun _ s' => Good s') (fun _ => False) := by
  rw [← zero_add (Pi.single _ _)] at hk
  unfold Ftable.openInode
  refine hk.filealloc.bind fun r s1 hs1 => ?_
  obtain ⟨hf1, hs1⟩ := hs1
  cases r with
  | none =>
    subst hs1
    exact ⟨hk.iput, hr.idle, hr.typed⟩
  | some f =>
    obtain ⟨h0, htype, -, hk1⟩ := hs1
    have hr1 := hr.of_frame hf1
    rw [← hf1.slots] at hk1 hr1 h0
    refine (fdalloc_ends s1 p f).bind fun r s2 hs2 => ?_
    cases r with
    | none =>
      subst hs2
      refine hk1.fileclose.bind fun _ s3 hs3 => ?_
      obtain ⟨hf3, hk3⟩ := hs3
      have hr3 := hr1.of_frame hf3
      rw [← hf3.slots] at hk3 hr3
      exact ⟨hk3.iput, hr3.idle, hr3.typed⟩
    | some fd =>
      obtain ⟨hfree, rfl⟩ := hs2
      have hk2 := hk1.setFd_some hfree
      have hr2 := hr1.setFd (hf1.life ▸ hp) fd (some f)
      have hpos : 0 < (s1.setFd p fd (some f)).slots f := by
        rw [slots_setFd_some hfree]
        simp
      simp only [ends_bind, ends_modify, ends_pure]
      refine ⟨hk2.adopt _ _ htype rfl hpos rfl, ?_⟩
      show Ready (s1.setFd p fd (some f)).slots _
      rw [slots_setFd_some hfree]
      exact hr2.setFile FdType.noConfusion

lemma Good.sysOpen {path : List UInt8} {omode : BitVec 32} (hg : Good s) (hp : s.life p = .live) :
    Ends (sysOpen p path omode) s (fun _ s' => Good s') (fun _ => False) := by
  simp only [Ftable.sysOpen, Ftable.iget, ends_bind, ends_get]
  split_ifs with hcreate
  · split
    · exact hg
    next inum new names _ =>
      simp only [ends_bind, ends_modify, ends_get, ends_pure]
      have hk := hg.kept.setNames names (if new = true then update s.contents inum [] else s.contents)
      have hk1 := hk.iget (update s.inum s.nextIp inum)
      rw [zero_add] at hk1
      exact hk1.openInode ⟨hg.ready.idle, hg.ready.typed⟩ hp
  · split
    · exact hg
    next inum _ =>
      have hk1 := hg.kept.iget (update s.inum s.nextIp inum)
      simp only [ends_bind, ends_modify, ends_get, ends_pure]
      split_ifs
      · exact ⟨hk1.iput, hg.ready.idle, hg.ready.typed⟩
      · rw [zero_add] at hk1
        exact hk1.openInode ⟨hg.ready.idle, hg.ready.typed⟩ hp

/-- A descriptor is filled and emptied again. -/
lemma setFd_back {x : Option (Fin NFILE)} (hfd : s.ofile p fd = none) :
    (s.setFd p fd x).setFd p fd none = s := by
  simp only [State.setFd, update_self, update_idem]
  rw [← hfd, update_eq_self, update_eq_self]

/-- What `sys_pipe` does when there are not two free descriptors. -/
lemma Kept.undo {rf wf : Fin NFILE} (hk : Kept (n + Pi.single rf 1 + Pi.single wf 1) D s) :
    Ends (do Ftable.fileclose rf; Ftable.fileclose wf; return Result.ret (-1)) s
      (fun r s' => r = .ret (-1) ∧ Frame n s s' ∧ Kept n D s') (fun _ => False) := by
  rw [add_right_comm] at hk
  refine hk.fileclose.bind fun _ s1 hs1 => ?_
  refine hs1.2.fileclose.bind fun _ s2 hs2 => ?_
  exact ⟨rfl, hs1.1.left.trans hs2.1, hs2.2⟩

lemma Good.sysPipe {page : Bool} (hg : Good s) (hp : s.life p = .live) :
    Ends (sysPipe p page) s (fun _ s' => Good s') (fun _ => False) := by
  unfold Ftable.sysPipe
  refine hg.kept.pipealloc.bind fun r s1 hs1 => ?_
  obtain ⟨hf1, hs1⟩ := hs1
  rcases r with - | ⟨rf, wf⟩
  · exact hg.of_frame hf1 hs1
  obtain ⟨hk1, hrf, hwf⟩ := hs1
  have hr1 := hg.ready.of_frame hf1
  have hp1 : s1.life p = .live := hf1.life ▸ hp
  rw [← hf1.slots] at hk1 hr1
  have hundo := hk1.undo.mono fun _ s' hs' => by
    have hr' := hr1.of_frame hs'.2.1
    have hk' := hs'.2.2
    rw [← hs'.2.1.slots] at hk' hr'
    exact (⟨hk', hr'⟩ : Good s')
  refine (fdalloc_ends s1 p rf).bind fun r s2 hs2 => ?_
  cases r with
  | none =>
    subst hs2
    exact hundo
  | some fd0 =>
    obtain ⟨hfree, rfl⟩ := hs2
    refine (fdalloc_ends _ p wf).bind fun r s3 hs3 => ?_
    cases r with
    | none =>
      subst hs3
      rw [ends_bind, ends_modify]
      rw [setFd_back hfree]
      exact hundo
    | some fd1 =>
      obtain ⟨hfree1, rfl⟩ := hs3
      have hk2 := hk1.setFd p fd0 (some rf)
      rw [← slots_setFd_some hfree] at hk2
      refine ⟨hk2.setFd_some hfree1, ?_⟩
      have hr2 := (((hr1.setFd hp1 fd0 (some rf)).add (f := rf)
        (hrf.trans_ne FdType.noConfusion)).setFd hp1 fd1 (some wf)).add (f := wf)
        (hwf.trans_ne FdType.noConfusion)
      rw [← slots_setFd_some hfree, ← slots_setFd_some hfree1] at hr2
      exact hr2

/-! ## Reading and writing -/

/-- Nothing that the invariant speaks of has changed. -/
lemma Good.congr (hg : Good s) (hftable : s'.ftable = s.ftable) (hofile : s'.ofile = s.ofile)
    (hlife : s'.life = s.life) (hpipes : s'.pipes = s.pipes) (hlog : s'.log = s.log)
    (hip : s'.nextIp = s.nextIp) (hpipe : s'.nextPipe = s.nextPipe) : Good s' := by
  obtain ⟨⟩ := s
  obtain ⟨⟩ := s'
  subst hftable hofile hlife hpipes hlog hip hpipe
  exact ⟨⟨hg.kept.ref, hg.kept.closed, hg.kept.sound, hg.kept.due, hg.kept.isOpen, hg.kept.pages,
    hg.kept.order⟩, hg.ready.idle, hg.ready.typed⟩

/-- The offset or the flags of a file change. -/
lemma Good.setFile {file : File} (hg : Good s) (href : file.ref = (s.ftable f).ref)
    (htype : file.type = (s.ftable f).type) (hrel : file.release = (s.ftable f).release) :
    Good (s.setFile f file) :=
  hg.of_frame (Frame.setFile fun _ => htype) (hg.kept.setFile_same (href.trans (hg.kept.ref f)) htype hrel)

/-- The page of a pipe with an open file is used. -/
lemma Good.access (hg : Good s) (hf : (s.ftable f).type = .pipe) (hpipe : (s.ftable f).pipe = some q) :
    Good (s.record (.access q)) := by
  have hrel : (s.ftable f).release = some (.pipeclose q (s.ftable f).writable) := by
    simp [File.release, hf, hpipe]
  refine hg.of_frame ⟨rfl, rfl, rfl, fun _ _ => rfl⟩ (hg.kept.record (by simp) (by simp) fun q' hq' => ?_)
  cases hq'
  exact hg.kept.not_kfree (hg.kept.not_mem_log_of_file hrel).1

/-- The bytes in a pipe change. -/
lemma Good.setData (hg : Good s) (data : List UInt8) :
    Good (s.setPipe q { s.pipes q with data }) :=
  hg.of_frame ⟨rfl, rfl, rfl, fun _ _ => rfl⟩ (hg.kept.setPipe fun w => by cases w <;> rfl)

/-- A read or a write in place. -/
lemma Good.readi {off k : ℕ} (hg : Good s) : Good (readi s h off k).2 := by
  unfold Ftable.readi
  split_ifs
  · exact hg.congr rfl rfl rfl rfl rfl rfl rfl
  · exact hg
  · exact hg

lemma ftable_readi {off k : ℕ} : (readi s h off k).2.ftable = s.ftable := by
  unfold readi
  split_ifs <;> rfl

lemma Good.writei {off : ℕ} {src : List UInt8} (hg : Good s) (hs' : writei s h off src = some s') :
    Good s' ∧ s'.ftable = s.ftable := by
  unfold Ftable.writei at hs'
  split_ifs at hs'
  all_goals
    obtain ⟨_, -, rfl⟩ := Option.map_eq_some_iff.mp hs'
    exact ⟨hg.congr rfl rfl rfl rfl rfl rfl rfl, rfl⟩

lemma Good.writeLoop {src : List UInt8} {fuel : ℕ} (hg : Good s) :
    Good (writeLoop f h fuel s src).1 := by
  induction fuel generalizing s src with
  | zero => exact hg
  | succ fuel ih =>
    simp only [Ftable.writeLoop]
    split_ifs
    · exact hg
    split
    · exact hg
    next s' hs' =>
      obtain ⟨hg', hsame⟩ := hg.writei hs'
      have heq := congrFun hsame f
      exact ih (hg'.setFile (by rw [heq]) (by rw [heq]) (by rw [heq]; rfl))

lemma Good.typed (hg : Good s) (hfd : s.ofile p fd = some f) :
    (∃ q, (s.ftable f).type = .pipe ∧ (s.ftable f).pipe = some q) ∨
      ∃ h, (s.ftable f).type = .inode ∧ (s.ftable f).ip = some h :=
  ((hg.kept.sound f).cases).resolve_left (hg.ready.typed f (slots_pos hfd))

lemma Good.fileread {k : ℕ} (hg : Good s) (hfd : s.ofile p fd = some f) :
    Ends (fileread f k) s (fun _ s' => Good s') (fun _ => False) := by
  simp only [Ftable.fileread, ends_bind, ends_get]
  split_ifs
  · exact hg
  rcases hg.typed hfd with ⟨q, htype, hpipe⟩ | ⟨h, htype, hip⟩
  · simp only [htype, hpipe, piperead, ends_bind, ends_get, ends_modify]
    have hg1 := hg.access htype hpipe
    split_ifs
    · exact hg1
    · exact hg1.setData _
  · simp only [htype, hip, ends_bind, ends_set, ends_pure]
    refine hg.readi.setFile ?_ ?_ ?_ <;> rw [ftable_readi] <;> simp [htype, hip, File.release]

lemma Good.filewrite {src : List UInt8} (hg : Good s) (hfd : s.ofile p fd = some f) :
    Ends (filewrite f src) s (fun _ s' => Good s') (fun _ => False) := by
  simp only [Ftable.filewrite, ends_bind, ends_get, ends_modify]
  have hseek : Good (s.sought f) := by
    unfold State.sought
    split_ifs
    · have hrec : Good (s.record (.consult (s.ftable f).ip)) :=
        hg.of_frame ⟨rfl, rfl, rfl, fun _ _ => rfl⟩ (hg.kept.record (by simp) (by simp) (by simp))
      exact hrec.setFile rfl rfl rfl
    · exact hg
  have hfd1 : (s.sought f).ofile p fd = some f := by
    unfold State.sought
    split_ifs <;> exact hfd
  generalize s.sought f = s1 at hseek hfd1 ⊢
  split_ifs
  · exact hseek
  rcases hseek.typed hfd1 with ⟨q, htype, hpipe⟩ | ⟨h, htype, hip⟩
  · simp only [htype, hpipe, pipewrite, ends_bind, ends_get, ends_modify]
    have hg2 := (hseek.access htype hpipe).setData (q := q)
      ((s1.pipes q).data ++ src.take (PIPESIZE - (s1.pipes q).data.length))
    split_ifs <;> exact hg2
  · simp only [htype, hip, ends_bind, ends_set, ends_pure]
    exact hseek.writeLoop

lemma Good.setfl {arg : BitVec 32} (hg : Good s) :
    Ends (setfl f arg) s (fun _ s' => Good s') (fun _ => False) := by
  simp only [Ftable.setfl, ends_bind, ends_modify, ends_pure]
  split_ifs
  · exact hg.setFile rfl rfl rfl
  · exact hg

/-! ## `fork` and `exit` -/

/-- The loop of `fork` fills descriptors that were empty. -/
lemma Good.dupLoop {fds : List (Fin NOFILE)} (hg : Good s) (hnp : s.life np = .live)
    (hnodup : fds.Nodup) (hempty : ∀ fd ∈ fds, s.ofile np fd = none) :
    Ends (dupLoop p np fds) s (fun _ s' => Good s') (fun _ => False) := by
  induction fds generalizing s with
  | nil => exact hg
  | cons fd fds ih =>
    rw [List.nodup_cons] at hnodup
    simp only [Ftable.dupLoop, ends_bind, ends_get]
    cases hfd : s.ofile p fd with
    | none => exact ih hg hnp hnodup.2 fun fd' hfd' => hempty fd' (List.mem_cons_of_mem _ hfd')
    | some f =>
      have hpos := slots_pos hfd
      refine (hg.kept.filedup hpos).bind fun _ s1 hs1 => ?_
      obtain ⟨hf, hk⟩ := hs1
      have hr := hg.ready.of_frame hf
      rw [← hf.slots] at hk hr hpos
      have hfree : s1.ofile np fd = none := by
        rw [hf.ofile]
        exact hempty fd List.mem_cons_self
      have hnp1 : s1.life np = .live := hf.life ▸ hnp
      have hr2 := (hr.setFd hnp1 fd (some f)).add (f := f) (hr.typed f hpos)
      rw [← slots_setFd_some hfree] at hr2
      rw [ends_bind, ends_modify]
      refine ih ⟨hk.setFd_some hfree, hr2⟩ hnp1 hnodup.2 fun fd' hfd' => ?_
      have hne' : fd' ≠ fd := by
        rintro rfl
        exact hnodup.1 hfd'
      simp only [State.setFd, update_self, update_of_ne hne', hf.ofile]
      exact hempty fd' (List.mem_cons_of_mem _ hfd')

lemma freeProc_eq_some (hf : s.freeProc = some np) : s.life np = .unused := by
  simpa using List.find?_some hf

lemma Good.fork {stack copy : Bool} (hg : Good s) :
    Ends (fork p stack copy) s (fun _ s' => Good s') (fun _ => False) := by
  simp only [Ftable.fork, ends_bind, ends_get]
  cases hfree : s.freeProc with
  | none => exact hg
  | some np =>
    have hunused := freeProc_eq_some hfree
    have hempty := hg.ready.idle np (by simp [hunused])
    simp only [ends_bind, ends_get, ends_modify]
    split_ifs
    · exact hg.congr rfl rfl rfl rfl rfl rfl rfl
    simp only [ends_bind, ends_modify]
    refine (Good.dupLoop ?_ ?_ (List.nodup_finRange _) ?_).mono fun _ s' hs' => hs'
    · refine ⟨⟨hg.kept.ref, hg.kept.closed, hg.kept.sound, hg.kept.due, hg.kept.isOpen, hg.kept.pages,
        hg.kept.order⟩, fun p' hp' fd => ?_, hg.ready.typed⟩
      rcases eq_or_ne p' np with rfl | hne
      · exact hempty fd
      · exact hg.ready.idle p' (by simpa [hne] using hp') fd
    · exact update_self np Life.live s.life
    · exact fun fd _ => hempty fd

/-- The loop of `exit` empties the descriptors. -/
lemma Good.closeLoop (fds : List (Fin NOFILE)) (hg : Good s) (hp : s.life p = .live) :
    Ends (closeLoop p fds) s (fun _ s' => Good s' ∧ s'.life = s.life ∧
      ∀ fd, fd ∈ fds ∨ s.ofile p fd = none → s'.ofile p fd = none) (fun _ => False) := by
  induction fds generalizing s with
  | nil => exact ⟨hg, rfl, fun fd hfd => hfd.resolve_left List.not_mem_nil⟩
  | cons fd fds ih =>
    simp only [Ftable.closeLoop, ends_bind, ends_get]
    cases hfd : s.ofile p fd with
    | none =>
      refine (ih hg hp).mono fun _ s' hs' => ⟨hs'.1, hs'.2.1, fun fd' hfd' => hs'.2.2 fd' ?_⟩
      rcases hfd' with hmem | hnone
      · rcases List.mem_cons.mp hmem with rfl | hmem
        · exact .inr hfd
        · exact .inl hmem
      · exact .inr hnone
    | some f =>
      have hk := hg.kept
      have hr := hg.ready
      rw [slots_setFd_none hfd] at hk hr
      refine hk.fileclose.bind fun _ s1 hs1 => ?_
      obtain ⟨hf, hk1⟩ := hs1
      have hp1 : s1.life p = .live := hf.life ▸ hp
      have hr1 := (hr.left.of_frame hf).setFd hp1 fd none
      have hslots : (s1.setFd p fd none).slots = (s.setFd p fd none).slots := by
        unfold State.slots State.setFd
        simp only [hf.ofile]
      have hk2 := hk1.setFd p fd none
      rw [← hslots] at hk2 hr1
      rw [ends_bind, ends_modify]
      refine (ih ⟨hk2, hr1⟩ hp1).mono fun _ s' hs' => ?_
      refine ⟨hs'.1, hs'.2.1.trans hf.life, fun fd' hfd' => hs'.2.2 fd' ?_⟩
      have hset : (s1.setFd p fd none).ofile p = update (s.ofile p) fd none := by
        simp only [State.setFd, update_self, hf.ofile]
      rw [hset]
      rcases eq_or_ne fd' fd with rfl | hne
      · exact .inr (update_self _ _ _)
      · rw [update_of_ne hne]
        simpa [hne] using hfd'

lemma Good.exit (hg : Good s) (hp : s.life p = .live) :
    Ends (exit p) s (fun _ s' => Good s') (fun e => e = .initExiting ∧ p = initproc) := by
  unfold Ftable.exit
  split_ifs with hinit
  · exact ⟨rfl, hinit⟩
  refine ((hg.closeLoop (List.finRange NOFILE) hp).imp (fun _ _ h => h) fun _ => False.elim).bind
    fun _ s1 hs1 => ?_
  obtain ⟨hg1, -, hnone⟩ := hs1
  simp only [ends_bind, ends_modify, ends_pure]
  refine ⟨⟨hg1.kept.ref, hg1.kept.closed, hg1.kept.sound, hg1.kept.due, hg1.kept.isOpen, hg1.kept.pages,
    hg1.kept.order⟩, fun p' hp' fd => ?_, hg1.ready.typed⟩
  rcases eq_or_ne p' p with rfl | hne
  · exact hnone fd (.inl (List.mem_finRange fd))
  · exact hg1.ready.idle p' (by simpa [hne] using hp') fd

lemma Good.wait (hg : Good s) :
    Ends (wait np) s (fun _ s' => Good s') (fun _ => False) := by
  simp only [Ftable.wait, ends_bind, ends_get]
  split_ifs with hz
  · simp only [ends_bind, ends_modify, ends_pure]
    refine ⟨⟨hg.kept.ref, hg.kept.closed, hg.kept.sound, hg.kept.due, hg.kept.isOpen, hg.kept.pages,
      hg.kept.order⟩, fun p' hp' fd => ?_, hg.ready.typed⟩
    rcases eq_or_ne p' np with rfl | hne
    · exact hg.ready.idle p' (by simp [hz]) fd
    · exact hg.ready.idle p' (by simpa [hne] using hp') fd
  · exact hg

/-! ## Runs -/

/-- A call keeps the invariant, and only `exit` of the first process stops the kernel. -/
lemma Good.syscall {c : Call} (hg : Good s) (hp : s.life p = .live) :
    Ends (syscall p c) s (fun _ s' => Good s') (fun _ => p = initproc ∧ c = .exit) := by
  have hweak : ∀ {x : Kernel v Result}, Ends x s (fun _ s' => Good s') (fun _ => False) →
      Ends x s (fun _ s' => Good s') (fun _ => p = initproc ∧ c = .exit) :=
    fun hx => hx.imp (fun _ _ h => h) fun _ => False.elim
  cases c with
  | «open» path omode => exact hweak (hg.sysOpen hp)
  | dup fd => exact hweak (hg.sysDup hp)
  | close fd => exact hweak (hg.sysClose hp)
  | pipe page => exact hweak (hg.sysPipe hp)
  | fork stack copy => exact hweak hg.fork
  | exit => exact (hg.exit hp).imp (fun _ _ h => h) fun _ he => ⟨he.2, rfl⟩
  | wait np => exact hweak hg.wait
  | read fd k => exact ends_withFd hg fun _ _ hfd => hweak (hg.fileread hfd)
  | write fd src => exact ends_withFd hg fun _ _ hfd => hweak (hg.filewrite hfd)
  | getfl fd =>
    show Ends (withFd p fd.val fun _ f => getfl f) s _ _
    exact ends_withFd hg fun _ _ _ => hg
  | setfl fd arg =>
    show Ends (withFd p fd.val fun _ f => Ftable.setfl f arg) s _ _
    exact ends_withFd hg fun _ _ _ => hweak hg.setfl

lemma Good.step {e : Fin NPROC × Call} (hg : Good s) (hs' : step s e = some s') : Good s' := by
  unfold Ftable.step at hs'
  split_ifs at hs' with hp
  obtain ⟨⟨a, t⟩, hrun, rfl⟩ := Option.map_eq_some_iff.mp hs'
  have hends := hg.syscall (c := e.2) hp
  unfold Ends at hends
  cases hcall : Ftable.syscall e.1 e.2 s with
  | error e => simp [hcall, Except.toOption] at hrun
  | ok b =>
    simp only [hcall, Except.toOption, Option.some.injEq] at hrun
    subst hrun
    simpa only [hcall] using hends

lemma good_init (names : v.Names) (devices : v.Devices) (contents : ℕ → List UInt8) :
    Good (State.init names devices contents) where
  kept :=
    { ref := fun f => by simp [State.init, State.slots, Table.count]
      closed := fun _ _ => rfl
      sound := fun _ => File.sound_of_none rfl
      due := fun r => by
        have howed : (State.init names devices contents).owed r = 0 := by
          unfold State.owed Table.count
          refine Finset.sum_eq_zero fun f _ => if_neg ?_
          show ¬ ((State.init names devices contents).ftable f).release = some r
          rw [File.release_of_none rfl]
          simp
        rw [howed]
        cases r <;> simp [State.init, State.given]
      isOpen := fun q w hq => absurd hq (Nat.not_lt_zero q)
      pages := fun q => by simp [State.init, State.Gone]
      order := List.Pairwise.nil }
  ready := ⟨fun _ _ _ => rfl, fun f hf => by simp [State.init, State.slots, Table.count] at hf⟩

/-- Every state that calls lead to. -/
lemma good_run {names : v.Names} {devices : v.Devices} {contents : ℕ → List UInt8}
    {es : List (Fin NPROC × Call)} (hrun : exec step (State.init names devices contents) es = some s) :
    Good s :=
  exec_induction (motive := fun _ s => Good s) (good_init names devices contents)
    (fun _ _ _ _ _ hg hstep => hg.step hstep) hrun

/-- The descriptors of live processes that point to a file. -/
def State.fds (s : State v) (f : Fin NFILE) : Finset (Fin NPROC × Fin NOFILE) :=
  {x | s.life x.1 = .live ∧ s.ofile x.1 x.2 = some f}

/-- A descriptor of a live process points to a file that stands for the release. -/
def State.Stands (s : State v) (r : Release) : Prop :=
  ∃ f, (s.fds f).Nonempty ∧ (s.ftable f).release = some r

instance (s : State v) (r : Release) : Decidable (s.Stands r) := inferInstanceAs (Decidable (∃ _, _))

lemma Good.card_fds (hg : Good s) (f : Fin NFILE) : (s.fds f).card = s.slots f := by
  have hfds : s.fds f = Finset.univ.filter fun x => s.ofile x.1 x.2 = some f := by
    refine Finset.filter_congr fun x _ => ⟨And.right, fun hx => ⟨?_, hx⟩⟩
    by_contra hlife
    rw [hg.ready.idle _ hlife] at hx
    simp at hx
  rw [hfds, Finset.card_filter, ← Finset.univ_product_univ, Finset.sum_product]
  rfl

/-- What has been handed out and is not released is stood for by a descriptor. -/
lemma Good.owed_eq (hg : Good s) (r : Release) : s.owed r = if s.Stands r then 1 else 0 := by
  have hdue := hg.kept.due r
  have hle := given_le s r
  split_ifs with hstands
  · obtain ⟨f, -, hf⟩ := hstands
    have hpos : 0 < s.owed r :=
      Table.count_pos (p := fun file : File => file.release = some r) (f := s.ftable) (i := f) hf
    omega
  · by_contra hne
    obtain ⟨f, hf⟩ := Table.exists_of_count_pos (p := fun file : File => file.release = some r)
      (f := s.ftable) (Nat.pos_of_ne_zero hne)
    refine hstands ⟨f, ?_, hf⟩
    rw [← Finset.card_pos, hg.card_fds]
    refine Nat.pos_of_ne_zero fun h0 => ?_
    rw [File.release_of_none (hg.kept.closed f h0)] at hf
    simp at hf

/-- In every state that a sequence of calls leads to: the reference count of a file is the number of
the descriptors of live processes that point to it; a handle or an end of a pipe is released once
when no such descriptor is left, and not before; the page of a pipe is freed once when this is so for
both ends, and not used after that.  Any call of a live process returns, except for `exit` of the
first process. -/
theorem ftable_counted {names : v.Names} {devices : v.Devices} {contents : ℕ → List UInt8}
    {es : List (Fin NPROC × Call)} (hrun : exec step (State.init names devices contents) es = some s) :
    (∀ f, (s.ftable f).ref = (s.fds f).card) ∧
    (∀ r, s.log.count (.release r) + (if s.Stands r then 1 else 0) = s.given r) ∧
    (∀ q, s.log.count (.kfree q) =
      if q < s.nextPipe ∧ ∀ w, ¬ s.Stands (.pipeclose q w) then 1 else 0) ∧
    s.log.Pairwise Effect.Before ∧
    ∀ p c, s.life p = .live → ¬ (p = initproc ∧ c = .exit) → (step s (p, c)).isSome := by
  have hg := good_run hrun
  have hreleased : ∀ r, s.log.count (.release r) + (if s.Stands r then 1 else 0) = s.given r := by
    intro r
    have := hg.kept.due r
    rwa [hg.owed_eq, Pi.zero_apply, add_zero] at this
  refine ⟨fun f => ?_, hreleased, fun q => ?_, hg.kept.order, fun p c hp hc => ?_⟩
  · rw [hg.card_fds, hg.kept.ref]
  · have hpages := hg.kept.pages q
    rw [Pi.zero_apply, add_zero] at hpages
    rw [hpages]
    refine if_congr ?_ rfl rfl
    have hmem : ∀ w, .release (.pipeclose q w) ∈ s.log ↔ q < s.nextPipe ∧ ¬ s.Stands (.pipeclose q w) := by
      intro w
      have := hreleased (.pipeclose q w)
      rw [← List.count_pos_iff]
      simp only [State.given] at this
      generalize s.log.count (.release (.pipeclose q w)) = k at this ⊢
      split_ifs at this with hs hq hq <;> simp [hs, hq] <;> omega
    simp only [State.Gone, hmem]
    exact ⟨fun hall => ⟨(hall true).1, fun w => (hall w).2⟩, fun h w => ⟨h.1, h.2 w⟩⟩
  · have hends := hg.syscall (c := c) hp
    unfold Ends at hends
    cases hcall : Ftable.syscall p c s with
    | error e =>
      rw [hcall] at hends
      exact absurd hends hc
    | ok b => simp [Ftable.step, hp, hcall, Except.toOption]

/-- A file system with one file `a`, and no devices. -/
abbrev oneFile : FileSystem where
  Names := Unit
  Devices := Unit
  namei _ path := if path = [97] then some 7 else none
  create _ path := if path = [97] then some (7, false, ()) else none
  isDir _ _ := false
  isDev _ _ := false
  devread _ _ _ := (.ret (-1), ())
  devwrite _ _ _ := none

/-- A process makes a pipe and a child; the child exits, and the pipe is closed. -/
theorem ftable_counted_pipe : ∃ s : State oneFile,
    exec step (State.init () () fun _ => []) [(0, .pipe true), (0, .fork true true), (1, .exit),
      (0, .close 0), (0, .close 1)] = some s ∧
    (∀ f, (s.ftable f).ref = (s.fds f).card) ∧
    (∀ r, s.log.count (.release r) + (if s.Stands r then 1 else 0) = s.given r) ∧
    (∀ q, s.log.count (.kfree q) =
      if q < s.nextPipe ∧ ∀ w, ¬ s.Stands (.pipeclose q w) then 1 else 0) ∧
    s.log.Pairwise Effect.Before ∧
    ∀ p c, s.life p = .live → ¬ (p = initproc ∧ c = .exit) → (step s (p, c)).isSome := by
  have hruns : (exec step (State.init (v := oneFile) () () fun _ => []) [(0, .pipe true),
      (0, .fork true true), (1, .exit), (0, .close 0), (0, .close 1)]).isSome := by decide +kernel
  obtain ⟨s, hs⟩ := Option.isSome_iff_exists.mp hruns
  exact ⟨s, hs, ftable_counted hs⟩

end Xv7.Ftable
