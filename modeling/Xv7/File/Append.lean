import Xv7.Fs.File

/-!
# Appending to a file

`filewrite` calls on one regular file through any number of open files with `F_APPEND`.  A call takes
the size of the file as its offset before it has a transaction or the lock of the inode; so other
calls can come in between.  The steps of a call are what it does before it waits for the lock, and
what it does with the lock: a write of at most 4096 bytes is one transaction.
-/

namespace Xv7.Append

open Function (update update_apply)

/-- A call that waits for the lock of the inode. -/
structure Call where
  file : ℕ
  data : List UInt8
  deriving DecidableEq, Repr

/-- The file, the open files, and the calls. -/
structure State where
  contents : List UInt8
  writable : ℕ → Bool
  /-- `f->off`. -/
  off : ℕ → ℕ
  calls : ℕ → Option Call
  /-- The data of the calls that have returned its length, in this order. -/
  done : List (List UInt8)

/-- What can happen: process `k` calls `filewrite`, or gets the lock. -/
inductive Event where
  | filewrite (k f : ℕ) (data : List UInt8)
  | write (k : ℕ)
  deriving DecidableEq, Repr

/-- `writei` on the contents; `none` is -1.  The sums do not wrap around, since the size is at most
`MAXFILE * BSIZE`. -/
def writei (contents : List UInt8) (off : ℕ) (data : List UInt8) : Option (List UInt8) :=
  if contents.length < off ∨ MAXFILE * BSIZE < off + data.length then none
  else some (splice contents off data)

namespace State

/-- `filewrite` up to `begin_op`: `f->off = f->ip->size` comes first. -/
def filewrite (s : State) (k f : ℕ) (data : List UInt8) : State :=
  let s := { s with off := Function.update s.off f s.contents.length }
  if s.writable f = false then s
  else if data = [] then { s with done := s.done ++ [data] }
  else { s with calls := Function.update s.calls k (some ⟨f, data⟩) }

/-- The transaction of `filewrite`. -/
def write (s : State) (k : ℕ) (c : Call) : State :=
  let s := { s with calls := Function.update s.calls k none }
  match writei s.contents (s.off c.file) c.data with
  | none => s
  | some contents => { s with
      contents
      off := Function.update s.off c.file (s.off c.file + c.data.length)
      done := s.done ++ [c.data] }

/-- A step. -/
def step (s : State) : Event → Option State
  | .filewrite k f data =>
    if s.calls k = none ∧ data.length ≤ MAXWRITE then some (s.filewrite k f data) else none
  | .write k => (s.calls k).map fun c => s.write k c

/-- No call is in progress. -/
def init (contents : List UInt8) (writable : ℕ → Bool) (off : ℕ → ℕ) : State where
  contents := contents
  writable := writable
  off := off
  calls _ := none
  done := []

end State

/-- The contents are the initial ones, followed by the data of the successful writes in some order. -/
def Appended (contents : List UInt8) (s : State) : Prop :=
  ∃ l : List (List UInt8), l.Perm s.done ∧ s.contents = contents ++ l.flatten

/-- A call that gets the lock and is not refused has the size of the file as its offset. -/
def UpToDate (s : State) : Event → Prop
  | .write k => ∀ c, s.calls k = some c → s.off c.file + c.data.length ≤ MAXFILE * BSIZE →
      s.off c.file = s.contents.length
  | .filewrite _ _ _ => True

/-! ## Every write goes behind the last one, or something is lost -/

/-- What is kept along every run: the offsets of the calls are within the file, and the file is not
longer than all that was written. -/
structure Bounded (contents : List UInt8) (s : State) : Prop where
  off : ∀ k c, s.calls k = some c → s.off c.file ≤ s.contents.length ∧ c.data ≠ []
  length : s.contents.length ≤ contents.length + s.done.flatten.length

section

variable {contents : List UInt8} {s s' : State} {k f : ℕ} {c : Call} {data : List UInt8} {e : Event}

lemma splice_end {α : Type*} (old data : List α) : splice old old.length data = old ++ data := by
  simp [splice]

lemma Bounded.filewrite (h : Bounded contents s) : Bounded contents (s.filewrite k f data) := by
  have hoff : ∀ g, s.off g ≤ s.contents.length →
      update s.off f s.contents.length g ≤ s.contents.length := by
    intro g hg
    rw [update_apply]
    split_ifs
    · exact le_rfl
    · exact hg
  rw [State.filewrite]
  split_ifs with hro hnil
  · exact ⟨fun k c hc => ⟨hoff _ (h.off k c hc).1, (h.off k c hc).2⟩, h.length⟩
  · refine ⟨fun k c hc => ⟨hoff _ (h.off k c hc).1, (h.off k c hc).2⟩, ?_⟩
    simpa [hnil] using h.length
  · refine ⟨fun j c hc => ?_, h.length⟩
    simp only [update_apply] at hc
    split_ifs at hc with hj
    · obtain rfl := Option.some.inj hc
      exact ⟨by simp, hnil⟩
    · exact ⟨hoff _ (h.off j c hc).1, (h.off j c hc).2⟩

/-- What a call with the lock does. -/
lemma Bounded.write_cases (h : Bounded contents s) (hc : s.calls k = some c) :
    MAXFILE * BSIZE < s.off c.file + c.data.length ∧
      s.write k c = { s with calls := update s.calls k none } ∨
    s.off c.file + c.data.length ≤ MAXFILE * BSIZE ∧ s.write k c = { s with
      contents := splice s.contents (s.off c.file) c.data
      off := update s.off c.file (s.off c.file + c.data.length)
      calls := update s.calls k none
      done := s.done ++ [c.data] } := by
  have hoff := (h.off k c hc).1
  by_cases hmax : MAXFILE * BSIZE < s.off c.file + c.data.length
  · refine Or.inl ⟨hmax, ?_⟩
    simp only [State.write, writei, if_pos (Or.inr hmax)]
  · refine Or.inr ⟨not_lt.mp hmax, ?_⟩
    have hok : ¬ (s.contents.length < s.off c.file ∨ MAXFILE * BSIZE < s.off c.file + c.data.length) := by
      omega
    simp only [State.write, writei, if_neg hok]

lemma Bounded.write (h : Bounded contents s) (hc : s.calls k = some c) :
    Bounded contents (s.write k c) := by
  have hcall : ∀ {j c'}, update s.calls k none j = some c' → s.calls j = some c' := by
    intro j c' hj
    rw [update_apply] at hj
    split_ifs at hj
    exact hj
  rcases h.write_cases hc with ⟨-, heq⟩ | ⟨-, heq⟩
  · rw [heq]
    exact ⟨fun j c' hj => h.off j c' (hcall hj), h.length⟩
  · have hoff := (h.off k c hc).1
    have hlen := length_splice (a := c.data) hoff
    rw [heq]
    refine ⟨fun j c' hj => ?_, ?_⟩
    · obtain ⟨hj', hne⟩ := h.off j c' (hcall hj)
      refine ⟨?_, hne⟩
      simp only [update_apply]
      split_ifs <;> omega
    · have hle := h.length
      simp only [List.flatten_append, List.length_append, List.flatten_singleton]
      omega

lemma Bounded.step (h : Bounded contents s) (hs' : s.step e = some s') : Bounded contents s' := by
  cases e with
  | filewrite k f data =>
    rw [State.step] at hs'
    split_ifs at hs'
    rw [Option.some.injEq] at hs'
    exact hs' ▸ h.filewrite
  | write k =>
    obtain ⟨c, hc, rfl⟩ := Option.map_eq_some_iff.mp hs'
    exact h.write hc

lemma bounded_run {writable : ℕ → Bool} {off : ℕ → ℕ} {tr : List Event}
    (hrun : Machine.exec State.step (.init contents writable off) tr = some s) : Bounded contents s :=
  Machine.exec_induction (motive := fun _ s => Bounded contents s)
    ⟨fun _ _ hc => absurd hc (by simp [State.init]), by simp [State.init]⟩ (fun _ _ _ _ _ h hs' => h.step hs') hrun

/-- A step at the end of the file. -/
lemma step_contents (h : Bounded contents s) (hup : UpToDate s e) (hs' : s.step e = some s')
    (hs : s.contents = contents ++ s.done.flatten) : s'.contents = contents ++ s'.done.flatten := by
  cases e with
  | filewrite k f data =>
    rw [State.step] at hs'
    split_ifs at hs'
    rw [Option.some.injEq] at hs'
    subst hs'
    rw [State.filewrite]
    split_ifs with hro hnil
    · exact hs
    · simpa [hnil] using hs
    · exact hs
  | write k =>
    obtain ⟨c, hc, rfl⟩ := Option.map_eq_some_iff.mp hs'
    rcases h.write_cases hc with ⟨-, heq⟩ | ⟨hmax, heq⟩
    · rw [heq]
      exact hs
    · rw [heq]
      simp only [hup c hc hmax, splice_end, List.flatten_append, List.flatten_singleton]
      rw [hs, List.append_assoc]

/-- After a step that is not at the end of the file something is missing, and it stays so. -/
lemma length_lt (h : Bounded contents s) (hs' : s.step e = some s')
    (hlt : ¬ UpToDate s e ∨ s.contents.length < contents.length + s.done.flatten.length) :
    s'.contents.length < contents.length + s'.done.flatten.length := by
  cases e with
  | filewrite k f data =>
    have hlt := hlt.resolve_left (not_not_intro trivial)
    rw [State.step] at hs'
    split_ifs at hs'
    rw [Option.some.injEq] at hs'
    subst hs'
    rw [State.filewrite]
    split_ifs with hro hnil
    · exact hlt
    · simpa [hnil] using hlt
    · exact hlt
  | write k =>
    obtain ⟨c, hc, rfl⟩ := Option.map_eq_some_iff.mp hs'
    obtain ⟨hoff, hne⟩ := h.off k c hc
    have hpos := List.length_pos_iff.mpr hne
    have hle := h.length
    have hup : UpToDate s (.write k) ↔
        (s.off c.file + c.data.length ≤ MAXFILE * BSIZE → s.off c.file = s.contents.length) :=
      ⟨fun hup => hup c hc, fun hup c' hc' => by
        obtain rfl := Option.some.inj (hc.symm.trans hc')
        exact hup⟩
    rw [hup] at hlt
    rcases h.write_cases hc with ⟨hmax, heq⟩ | ⟨hmax, heq⟩
    · rw [heq]
      exact hlt.resolve_left (not_not_intro fun hle => absurd hmax (not_lt.mpr hle))
    · rw [heq]
      have hlen := length_splice (a := c.data) hoff
      simp only [List.flatten_append, List.length_append, List.flatten_singleton]
      rcases hlt with hnot | hlt
      · have hne' : s.off c.file ≠ s.contents.length := fun h => hnot fun _ => h
        omega
      · omega

end

/-- A call that nobody comes in between does to the contents what `filewrite` does on the disk. -/
lemma filewrite_alone {own : ℕ → Prop} [DecidablePred own] {sb : Superblock} {s : Fs}
    (hL : sb.Layout) (h0 : ¬ own 0) (hT : own T_FILE) {f : File} {data : List UInt8} (env : ℕ → Env)
    (pipewrite : List UInt8 → ℤ) (hs : Ownership own sb s) (hc : Xv7.Coherent sb s)
    (hi : f.inum ∈ inums sb) (hfile : (s.inode sb f.inum).type = T_FILE)
    (hfull : NoHoles s.disk (s.inode sb f.inum)) (hfd : f.type = .inode)
    (hwritable : f.writable = true) (happend : f.append = true) (hdata : data ≠ [])
    (hlen : data.length ≤ MAXWRITE)
    (hmax : (s.inode sb f.inum).size + data.length ≤ MAXFILE * BSIZE)
    (hfree : missing s.disk (s.inode sb f.inum).addrs
      (blocksFor ((s.inode sb f.inum).size + data.length)) + (s.used own sb).length ≤
        sb.size - sb.dataStart) :
    ∃ f' s' t, filewrite pipewrite sb env s f data = .ok (data.length, f', s') ∧
      Machine.exec State.step (.init (contents s.disk (s.inode sb f.inum)) (fun _ => true) fun _ => 0)
        [.filewrite 0 0 data, .write 0] = some t ∧
      t.contents = contents s'.disk (s'.inode sb f.inum) := by
  have hsize : (contents s.disk (s.inode sb f.inum)).length = (s.inode sb f.inum).size := by
    simp [contents]
  obtain ⟨s', hrun, hcontents, -, -⟩ := Roomy.filewrite_eq hL h0 hT env pipewrite
    ⟨⟨(ownership_iff_alloc hL).mp hs, hc⟩, hfile, hfull, hfree⟩ hi hfd hwritable
    (if_pos happend).symm le_rfl hmax
  rw [← hsize] at hcontents hmax
  generalize contents s.disk (s.inode sb f.inum) = old at hcontents hmax
  have hwrite : writei old old.length data = some (splice old old.length data) :=
    if_neg (by omega)
  have hmachine : (Machine.exec State.step (.init old (fun _ => true) fun _ => 0)
      [.filewrite 0 0 data, .write 0]).map State.contents = some (splice old old.length data) := by
    simp [State.step, State.filewrite, State.write, State.init, hlen, hdata, hwrite]
  obtain ⟨t, ht, hcont⟩ := Option.map_eq_some_iff.mp hmachine
  exact ⟨_, s', t, hrun, ht, hcont.trans hcontents.symm⟩

end Xv7.Append
