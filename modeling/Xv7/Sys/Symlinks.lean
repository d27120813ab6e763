import Xv7.Sys.Resolve

/-!
# Symbolic links

`namei` looks at the type of an inode that it has not locked.  It follows the links as it should when
all inodes that it comes to have been read before and somebody still has a reference to them; of any
other inode it sees what the slot of the cache held before.
-/

namespace Xv7.Sys

open Icache (Slot)
open Ptable (NPROC)
open Prog

/-- What a path names when links are not followed. -/
def State.resolve (s : State) (c : Caller) (path : List UInt8) : Option ℕ :=
  walk s.fs.IsDir s.fs.look (s.start c path) (components path)

/-- Where a chain of at most so many links leads to. -/
def State.follow (s : State) (c : Caller) : ℕ → ℕ → Option ℕ
  | left, n =>
    if (s.fs.node n).type ≠ T_SYMLINK then some n
    else match left with
      | 0 => none
      | left + 1 => (s.resolve c (s.fs.node n).text).bind (s.follow c left)

/-- The inode has been read and is in use. -/
def State.Loaded (s : State) (n : ℕ) : Prop :=
  ∃ i, 0 < (s.inode i).ref ∧ (s.inode i).inum = n ∧ (s.inode i).valid = true

/-- The inodes of a chain of at most so many links have been read, and the links fit. -/
def State.Chain (s : State) (c : Caller) : ℕ → ℕ → Prop
  | left, n => s.Loaded n ∧ ((s.fs.node n).type = T_SYMLINK →
      (s.fs.node n).text.length ≤ ADDRSIZE ∧ match left with
        | 0 => False
        | left + 1 => ∀ m, s.resolve c (s.fs.node n).text = some m → s.Chain c left m)

variable {s s' : State} {c : Caller} {i : Slot} {n : ℕ}

lemma State.Chain.loaded {left : ℕ} (h : s.Chain c left n) : s.Loaded n := by
  unfold State.Chain at h
  exact h.1

/-- What `namei` sees in the cache is what is on the disk. -/
lemma State.Loaded.node_eq (hn : s.Loaded n) (h : Busy s s.refs {(i, n)} ∅ s') (hfs : s'.fs = s.fs) :
    (s'.inode i).node = s.fs.node n ∧ 0 < (s.inode i).ref := by
  obtain ⟨j, hj, hjn, hvalid⟩ := hn
  have himem : (i, n) ∈ ({(i, n)} : Multiset Ref) := Multiset.mem_singleton_self _
  obtain ⟨hnum, hval⟩ := h.keep j hj
  have hjpos : 0 < (s'.inode j).ref := by
    rw [h.ref]
    exact Nat.add_pos_left hj _
  have hji : j = i := h.cache.distinct j i hjpos (h.ref_pos himem)
    (hnum.trans (hjn.trans (h.inum _ himem).symm))
  subst hji
  rw [h.cache.copy j hjpos (hval hvalid), h.inum _ himem, hfs]
  exact ⟨rfl, hj⟩

/-- The loop of `namei` follows a chain that has been read. -/
lemma Busy.chase_follow (hc : Consistent s) (hcwd : 0 < s.refs (s.cwd c.pid)) (left : ℕ)
    (h : Busy s s.refs {(i, n)} ∅ s') (hfs : s'.fs = s.fs) (hn : s.Chain c left n) :
    Ends (Sys.chase c left i) s' (fun r s'' => s''.fs = s.fs ∧ match r with
      | .lost => s.follow c left n = none ∧ Busy s s.refs 0 ∅ s''
      | .deep _ => False
      | .found j => ∃ m, s.follow c left n = some m ∧ Busy s s.refs {(j, m)} ∅ s'') s.Crowded := by
  obtain ⟨hnode, hpos⟩ := hn.loaded.node_eq h hfs
  have hsettled : ∀ {R fs}, Files.Swept (Spare s s.refs R) s.fs fs → fs = s.fs := fun hsw =>
    hc.settled.swept_eq (hsw.mono fun k hk => ⟨hk.1, by simp⟩)
  induction left generalizing i n s' with
  | zero =>
    have hlink : (s.fs.node n).type ≠ T_SYMLINK := fun hlink => by
      unfold State.Chain at hn
      exact (hn.2 hlink).2
    unfold Sys.chase State.follow
    simp only [Sys.inode, ends_bind, ends_get, ends_pure, hnode, if_neg hlink, if_pos hlink]
    exact ⟨hfs, n, rfl, h⟩
  | succ left ih =>
    unfold Sys.chase State.follow
    simp only [Sys.inode, ends_bind, ends_get, ends_pure, hnode]
    by_cases hlink : (s.fs.node n).type = T_SYMLINK
    · unfold State.Chain at hn
      obtain ⟨hlen, hnext⟩ := hn.2 hlink
      have hR : ∀ x ∈ ({(i, n)} : Multiset Ref), 0 < (s.inode x.1).ref := by simpa using hpos
      rw [if_pos hlink, if_neg (not_not.mpr hlink)]
      unfold Sys.nameifollow
      simp only [Sys.inode, ends_bind, ends_get, ends_pure, hnode, if_neg (not_lt.mpr hlen)]
      refine (h.namex_or (hc.stops hR) hc.start (hfs ▸ .refl) hcwd false).mono ?_
      rintro r s1 ⟨hsw1, hr⟩
      have hfs1 := hsettled hsw1
      have htarget := s.fs.target_false (s.start c (s.fs.node n).text)
        (components (s.fs.node n).text) []
      rcases r with _ | ⟨j, name⟩
      · obtain ⟨hnone, h1⟩ := hr
        rw [hnone] at htarget
        refine (h1.iput_swept (R := 0) (Finset.notMem_empty _)).mono ?_
        rintro _ s2 ⟨h2, hsw2⟩
        refine ⟨hsettled (hfs1 ▸ hsw2), ?_, h2⟩
        rw [State.resolve, ← htarget]
        rfl
      · obtain ⟨m, hm, h1, -⟩ := hr
        rw [hm] at htarget
        have hm : s.resolve c (s.fs.node n).text = some m := htarget.symm
        rw [← Multiset.cons_zero (i, n), Multiset.cons_swap] at h1
        refine (h1.iput_swept (Finset.notMem_empty _)).mono ?_
        rintro _ s2 ⟨h2, hsw2⟩
        have hfs2 := hsettled (hfs1 ▸ hsw2)
        have hchain := hnext m hm
        obtain ⟨hnode2, hpos2⟩ := hchain.loaded.node_eq h2 hfs2
        rw [hm]
        exact ih h2 hfs2 hchain hnode2 hpos2
    · rw [if_neg hlink, if_pos hlink]
      exact ⟨hfs, n, rfl, h⟩

/-- A root directory with a file `f` and a link `l` to it. -/
def oneLink : Files where
  node n := if n = 3 then ⟨T_SYMLINK, 0, 0, 1, [slash, 102]⟩ else oneFile.node n
  dir n := if n = ROOTINO then some ([108], ⟨3, 0⟩) :: oneFile.dir ROOTINO else []
  gen _ := 0

lemma consistent_oneLink (hfs : s.fs = oneLink) (hcwd : ∀ p, (s.inode (s.cwd p)).inum = ROOTINO) :
    Consistent s := by
  refine consistent_of_root ?_ hcwd ?_ ?_ ?_ ?_ <;> rw [hfs]
  · decide
  · exact fun n hn => if_neg hn
  · rintro e he
    simp only [oneLink, oneFile, if_true, List.mem_cons, Option.some.injEq, List.not_mem_nil,
      or_false] at he
    rcases he with rfl | rfl | rfl | rfl <;> decide
  · intro n
    simp only [oneLink, oneFile]
    split_ifs <;> simp
  · decide

/-- The file and the link are open. -/
def openLink : State :=
  { boot oneLink with
    inode := fun i => if i = 0 then ⟨ROOTINO, NPROC, true, oneLink.node ROOTINO⟩
      else if i = 1 then ⟨3, 1, true, oneLink.node 3⟩
      else if i = 2 then ⟨2, 1, true, oneLink.node 2⟩
      else ⟨0, 0, false, ⟨0, 0, 0, 0, []⟩⟩ }

lemma good_openLink : Good openLink where
  cache := ⟨by decide +kernel, by decide +kernel, by decide +kernel⟩
  idle := rfl
  handles := by decide +kernel
  fds f := by simp [State.fds, openLink, boot]
  closed _ _ := rfl

/-- There is a link in the directory, with one name and with the text that was asked for. -/
def RoundTrip (s s' : State) (c : Caller) (target linkpath : List UInt8) : Prop :=
  ∃ d name n, s.parentOf c linkpath = some (d, name) ∧ s'.fs.IsDir d ∧
    s'.fs.look d name = some n ∧ (s'.fs.node n).nlink = 1 ∧ (s'.fs.node n).text = target

/-- No call of `sys_symlink` makes such a link: the inode that it makes has the link count 0. -/
theorem not_roundTrip (h : Good s) {target linkpath : List UInt8}
    (hrun : syscall c (.symlink (some target) (some linkpath)) s = .ok (0, s')) :
    ¬ RoundTrip s s' c target linkpath := by
  obtain ⟨-, hmade⟩ := (h.sysSymlink target linkpath).of_ok hrun
  obtain ⟨d, name, n, hparent, hnode, hlook⟩ := hmade rfl
  rintro ⟨d', name', n', hparent', hdir, hlook', hlink, -⟩
  rw [hparent] at hparent'
  simp only [Option.some.injEq, Prod.mk.injEq] at hparent'
  obtain ⟨rfl, rfl⟩ := hparent'
  rw [hlook hdir] at hlook'
  cases hlook'
  rw [hnode] at hlink
  have hzero : (0 : BitVec 16) = 1 := hlink
  exact absurd hzero (by decide)

/-- `symlink("/f", "/g")` after booting. -/
theorem not_roundTrip_boot : Good (boot oneFile) ∧
    ∃ s', syscall caller (.symlink (some [slash, 102]) (some [slash, 103])) (boot oneFile) =
      .ok (0, s') ∧ ¬ RoundTrip (boot oneFile) s' caller [slash, 102] [slash, 103] := by
  have hgood : Good (boot oneFile) := good_boot (by decide)
  obtain ⟨⟨r, s'⟩, hrun, rfl⟩ := Fallible.exists_of_map_toOption
    (show (syscall caller (.symlink (some [slash, 102]) (some [slash, 103]))
      (boot oneFile)).toOption.map Prod.fst = some 0 by decide +kernel)
  exact ⟨hgood, s', hrun, not_roundTrip hgood hrun⟩

/-- It returns 0, and the inode of `/g` has no links. -/
theorem symlink_boot : (boot oneFile).fs.look ROOTINO [103] = none ∧
    (syscall caller (.symlink (some [slash, 102]) (some [slash, 103])) (boot oneFile)).toOption.map
      (fun x => (x.1, x.2.fs.look ROOTINO [103], (x.2.fs.node 3).nlink)) = some (0, some 3, 0) :=
  ⟨by decide, by decide +kernel⟩

end Xv7.Sys
