import Xv7.Sys.Deadlock

/-!
# Path resolution

In a consistent file system `namex` finds what the directories say, changes no file, and takes one
reference to the inode that it returns.  It does not get there when the inode cache is full: it needs
two slots, one for the directory it is in and one for the inode it looks up.
-/

namespace Xv7.Sys

open Icache (NINODE)
open Prog

namespace Files

/-- The directory that all names but the last lead to, and the last name. -/
def parent (fs : Files) (n : ℕ) (names : List Name) : Option (ℕ × Name) :=
  names.getLast?.bind fun name =>
    ((walk fs.IsDir fs.look n names.dropLast).filter fun m => fs.IsDir m).map fun m => (m, name)

/-- The result of resolving a path from an inode: the inode that the names lead to, or with
`nameiparent` the directory before it and the last name. -/
def Resolves (fs : Files) (nameiparent : Bool) (n : ℕ) (names : List Name)
    (r : Option (ℕ × Name)) : Prop :=
  if nameiparent then r = fs.parent n names else r.map Prod.fst = walk fs.IsDir fs.look n names

variable {fs : Files}

lemma target_false (n : ℕ) (names : List Name) (name : Name) :
    (fs.target false n names name).map Prod.fst = walk fs.IsDir fs.look n names := by
  induction names generalizing n name with
  | nil => rfl
  | cons name' names ih =>
    simp only [target, walk, Bool.false_eq_true, false_and, if_false, ite_not]
    split_ifs
    · rw [Option.map_bind]
      exact Option.bind_congr fun m _ => ih m name'
    · rfl

lemma parent_cons_cons (n : ℕ) (name name' : Name) (names : List Name) :
    fs.parent n (name :: name' :: names) =
      if fs.IsDir n then (fs.look n name).bind fun m => fs.parent m (name' :: names) else none := by
  obtain ⟨last, hlast⟩ := Option.ne_none_iff_exists'.mp
    (List.getLast?_eq_none_iff.not.mpr (List.cons_ne_nil name' names))
  simp only [parent, List.getLast?_cons_cons, hlast, Option.bind_some, List.dropLast_cons_cons, walk]
  split_ifs
  · cases fs.look n name <;> rfl
  · rfl

lemma target_true (n : ℕ) (names : List Name) (name : Name) :
    fs.target true n names name = fs.parent n names := by
  induction names generalizing n name with
  | nil => rfl
  | cons name' names ih =>
    cases names with
    | nil =>
      by_cases hn : (fs.node n).type = T_DIR <;> simp [target, parent, walk, IsDir, hn]
    | cons name'' names =>
      rw [parent_cons_cons, target]
      simp only [ite_not, List.cons_ne_nil, and_false, if_false, ih]

lemma resolves_target (nameiparent : Bool) (n : ℕ) (names : List Name) (name : Name) :
    fs.Resolves nameiparent n names (fs.target nameiparent n names name) := by
  cases nameiparent
  · exact target_false n names name
  · exact target_true n names name

end Files

/-- What has no links is in the cache. -/
def Settled (s : State) : Prop :=
  ∀ n, (s.fs.node n).type ≠ 0 → (s.fs.node n).nlink = 0 →
    ∃ i, 0 < (s.inode i).ref ∧ (s.inode i).inum = n

/-- The file system is consistent: what is named is in use, what has no links is in the cache, and
`readi` gets to all entries of the directories. -/
structure Consistent (s : State) : Prop where
  root : (s.fs.node ROOTINO).type ≠ 0
  cwd : ∀ p, (s.fs.node (s.inode (s.cwd p)).inum).type ≠ 0
  entry : ∀ n name m, s.fs.IsDir n → s.fs.look n name = some m → (s.fs.node m).type ≠ 0
  settled : Settled s
  -- beyond, `bmap` takes the times of the inode for block numbers
  small : ∀ n, s.fs.IsDir n → (s.fs.dir n).length * DIRENTSIZE ≤ SMALL

variable {s : State}

/-- There is nothing to free then. -/
lemma Settled.swept_eq {fs : Files} (h : Settled s) (hsw : Files.Swept s.Unheld s.fs fs) :
    fs = s.fs := by
  induction hsw with
  | refl => rfl
  | tail _ hfree ih =>
    subst ih
    obtain ⟨n, hn, hlink, htype, -⟩ := hfree
    obtain ⟨i, hi, hin⟩ := h n htype hlink
    exact absurd hin (hn.1 i hi)

lemma Consistent.start {c : Caller} {path : List UInt8} (h : Consistent s) :
    (s.fs.node (s.start c path)).type ≠ 0 := by
  unfold State.start
  split_ifs
  · exact h.root
  · exact h.cwd c.pid

/-- `iget` has found no slot, and not two slots were free before the call. -/
def State.Crowded (s : State) (e : Stop) : Prop :=
  e = .panic .iget ∧ ∀ i j, i ≠ j → 0 < (s.inode i).ref ∨ 0 < (s.inode j).ref

/-- What a path walk may stop for in a consistent file system, while the call has references to
inodes that others have references to. -/
lemma Consistent.stops {R : Multiset Ref} (h : Consistent s) (hR : ∀ x ∈ R, 0 < (s.inode x.1).ref) :
    Stops s s.refs R s.fs (fun n => (s.fs.node n).type ≠ 0) s.Crowded where
  look m name k _ hdir hlook := h.entry m name k hdir hlook
  iget i m hfull := by
    have hpos : ∀ j, j ≠ i → 0 < (s.inode j).ref := by
      intro j hj
      have hfull := hfull j
      rw [held_cons, if_neg hj] at hfull
      by_contra hzero
      have hheld : 0 < held R j := by
        unfold State.refs at hfull
        omega
      obtain ⟨k, hk⟩ := exists_of_held_pos hheld
      exact hzero (hR _ hk)
    refine ⟨rfl, fun a b hab => ?_⟩
    by_cases ha : a = i
    · exact Or.inr (hpos b fun hb => hab (ha.trans hb.symm))
    · exact Or.inl (hpos a ha)
  noType m fs hm hsw htype := by
    rw [h.settled.swept_eq (hsw.mono fun k hk => ⟨hk.1, by simp⟩)] at htype
    exact absurd htype hm

/-- `namex` returns what the directories say and has one more reference to it, or not two slots of
the cache are free. -/
theorem namex_resolves (h : Good s) (hc : Consistent s) (c : Caller) (path : List UInt8)
    (nameiparent : Bool) : Ends (namex c path nameiparent) s
      (fun r s' => s'.fs = s.fs ∧
        s.fs.Resolves nameiparent (s.start c path) (components path)
          (r.map fun x => ((s'.inode x.1).inum, x.2)) ∧
        ∀ j, (s'.inode j).ref = (s.inode j).ref + if r.map Prod.fst = some j then 1 else 0)
      s.Crowded := by
  refine (h.busy.namex_or (hc.stops (by simp)) hc.start .refl (h.cwd_pos c.pid) nameiparent).mono ?_
  rintro r s' ⟨hsw, hr⟩
  have ht := s.fs.resolves_target nameiparent (s.start c path) (components path) []
  refine ⟨hc.settled.swept_eq hsw, ?_⟩
  rcases r with _ | ⟨i, name⟩
  · obtain ⟨hr, hb⟩ := hr
    rw [hr] at ht
    refine ⟨ht, fun j => ?_⟩
    rw [hb.ref, held_zero]
    simp [State.refs]
  · obtain ⟨n, hr, hb, -⟩ := hr
    refine ⟨?_, fun j => ?_⟩
    · rw [Option.map_some, hb.inum (i, n) (Multiset.mem_cons_self _ _), ← hr]
      exact ht
    · rw [hb.ref, held_cons, held_zero]
      simp [State.refs, eq_comm]

/-- What is found in a directory is in one of its entries. -/
lemma Files.look_mem {fs : Files} {n m : ℕ} {name : Name} (h : fs.look n name = some m) :
    ∃ e, some e ∈ fs.dir n ∧ e.2.inum = m := by
  obtain ⟨⟨entry, k⟩, hfind, rfl⟩ := Option.map_eq_some_iff.mp h
  exact ⟨(name, entry), List.mem_of_getElem? (SlotMap.find_eq_some.mp hfind).1, rfl⟩

/-- Everything is in the root directory. -/
lemma consistent_of_root (hroot : (s.fs.node ROOTINO).type ≠ 0)
    (hcwd : ∀ p, (s.inode (s.cwd p)).inum = ROOTINO) (hdir : ∀ n, n ≠ ROOTINO → s.fs.dir n = [])
    (hentry : ∀ e, some e ∈ s.fs.dir ROOTINO → (s.fs.node e.2.inum).type ≠ 0)
    (hlink : ∀ n, (s.fs.node n).type ≠ 0 → (s.fs.node n).nlink ≠ 0)
    (hsmall : (s.fs.dir ROOTINO).length * DIRENTSIZE ≤ SMALL) : Consistent s where
  root := hroot
  cwd p := by rwa [hcwd]
  entry n name m _ hlook := by
    obtain ⟨e, he, rfl⟩ := Files.look_mem hlook
    by_cases hn : n = ROOTINO
    · exact hentry e (hn ▸ he)
    · simp [hdir n hn] at he
  settled n htype hzero := absurd hzero (hlink n htype)
  small n _ := by
    by_cases hn : n = ROOTINO
    · exact hn ▸ hsmall
    · simp [hdir n hn]

lemma consistent_boot_oneFile : Consistent (boot oneFile) := by
  refine consistent_of_root (by decide) (fun _ => rfl) (fun n hn => if_neg hn) ?_ (fun n => ?_)
    (by decide)
  · rintro e he
    simp only [boot, oneFile, if_true, List.mem_cons, Option.some.injEq, List.not_mem_nil,
      or_false] at he
    rcases he with rfl | rfl | rfl <;> decide
  · simp only [boot, oneFile]
    split_ifs <;> simp

/-- `/f` is found after booting. -/
theorem namex_resolves_boot : Good (boot oneFile) ∧ Consistent (boot oneFile) ∧
    ∃ r s', namex caller [slash, 102] false (boot oneFile) = .ok (some r, s') ∧
      (s'.inode r.1).inum = 2 := by
  have hgood : Good (boot oneFile) := good_boot (by decide)
  refine ⟨hgood, consistent_boot_oneFile, ?_⟩
  have hends := namex_resolves hgood consistent_boot_oneFile caller [slash, 102] false
  rcases hx : namex caller [slash, 102] false (boot oneFile) with e | ⟨r, s'⟩
  · exact absurd ((hends.of_error hx).2 1 2 (by decide)) (by decide)
  · obtain ⟨-, hr, -⟩ := hends.of_ok hx
    have hwalk : walk oneFile.IsDir oneFile.look ROOTINO [[102]] = some 2 := by decide
    have hr : (r.map fun x => ((s'.inode x.1).inum, x.2)).map Prod.fst = some 2 := hr.trans hwalk
    rw [Option.map_map] at hr
    obtain ⟨x, rfl, hinum⟩ := Option.map_eq_some_iff.mp hr
    exact ⟨x, s', rfl, hinum⟩

/-! ## A full cache -/

/-- Directories under the root directory. -/
def directories : Files where
  node _ := ⟨T_DIR, 0, 0, 1, []⟩
  dir n := if n = ROOTINO then
      [some (dot, ⟨ROOTINO, 0⟩), some (dotdot, ⟨ROOTINO, 0⟩), some ([102], ⟨60, 0⟩)]
    else [some (dot, ⟨n, 0⟩), some (dotdot, ⟨ROOTINO, 0⟩)]
  gen _ := 0

/-- The processes are in as many directories as the cache has slots. -/
def crowded : State where
  fs := directories
  ninodes := 200
  inode i := ⟨i + 1, if i < 14 then 2 else 1, true, directories.node (i + 1)⟩
  locked := ∅
  ops := 0
  ftable _ := ⟨0, .none, 0⟩
  cwd p := Fin.ofNat NINODE p
  ofile _ _ := none

lemma good_crowded : Good crowded := by
  refine ⟨⟨fun i j _ _ hij => ?_, fun _ _ _ => rfl, fun _ _ _ => by simp [crowded, directories, T_DIR]⟩,
    rfl, ?_, fun f => ?_, fun _ _ => rfl⟩
  · exact Fin.ext (Nat.succ.inj hij)
  · decide +kernel
  · simp [State.fds, crowded]

lemma consistent_crowded : Consistent crowded where
  root := by decide
  cwd _ := by simp [crowded, directories, T_DIR]
  entry _ _ _ _ _ := by simp [crowded, directories, T_DIR]
  settled _ _ h := absurd h (by simp [crowded, directories])
  small n _ := by
    change (directories.dir n).length * DIRENTSIZE ≤ SMALL
    unfold directories
    dsimp only
    split_ifs
    all_goals
      change _ * 16 ≤ 138 * 512
      simp

/-- No slot is left for `/f`. -/
theorem namex_crowded : Good crowded ∧ Consistent crowded ∧
    walk directories.IsDir directories.look ROOTINO (components [slash, 102]) = some 60 ∧
    namex caller [slash, 102] false crowded = .error (.panic .iget) :=
  ⟨good_crowded, consistent_crowded, by decide,
    Fallible.eq_error_of_failure (by decide +kernel)⟩

end Xv7.Sys
