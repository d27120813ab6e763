import Xv7.Mkfs.Tidy

/-!
# The link counts of an image

The kernel counts an entry for the inode that it names, except for the entry `.`; the entry `..` of
a directory counts for its parent.  `mkfs` gives every inode one link, and so the counts agree only
as long as there is no directory but the root.
-/

namespace Xv7.Mkfs

open Function (update update_of_ne update_self)
open Fallible

variable {fs fs' : Files} {c : Checks} {parent : ℕ} {name : List UInt8}

/-! ## Counting links -/

/-- The kernel counts the entry for the inode. -/
def CountsFor (i : ℕ) (e : Dirent) : Bool := decide (e.inum = i ∧ cut e.name ≠ dot)

/-- The entries of a table of inodes. -/
def linksOf (type : ℕ → ℕ) (data : ℕ → List UInt8) : List Dirent :=
  (List.range NINODES).flatMap fun j => if type j = T_DIR then dirents (data j) else []

/-- The number of entries that name an inode, other than `.`. -/
def Files.names (fs : Files) (i : ℕ) : ℕ := (linksOf fs.type fs.data).countP (CountsFor i)

/-- A change of one member of a family of lists. -/
lemma flatMap_range_perm_of_eq {α : Type} {f f' : ℕ → List α} {n a : ℕ} {x : List α} (ha : a < n)
    (h : ∀ j, j ≠ a → f' j = f j) (hx : f' a = f a ++ x) :
    ((List.range n).flatMap f').Perm (x ++ (List.range n).flatMap f) := by
  have hperm := List.perm_cons_erase (List.mem_range.mpr ha)
  have hrest : ((List.range n).erase a).flatMap f' = ((List.range n).erase a).flatMap f :=
    List.flatMap_congr fun j hj => h j (PtrTree.mem_range_erase.mp hj).1
  refine (hperm.flatMap_right f').trans ?_
  rw [List.flatMap_cons, hrest, hx, List.append_assoc]
  refine (List.perm_append_comm_assoc _ _ _).trans ((List.Perm.append_left x) ?_)
  exact (hperm.flatMap_right f).symm

/-- The entries after a file or a directory is made. -/
lemma Made.names_eq {type : ℕ} {data : List UInt8} (h : Made fs fs' parent type name data)
    (ht : Tidy fs) (hp : fs.type parent = T_DIR) (i : ℕ) :
    fs'.names i = fs.names i + [entry fs.next name].countP (CountsFor i) +
      (if type = T_DIR then dirents data else []).countP (CountsFor i) := by
  have hlt := ht.lt_next hp
  have hfree : fs.type fs.next ≠ T_DIR := by
    rw [ht.free _ le_rfl]
    decide
  -- first the entry in the parent, then the new inode
  have h1 : (linksOf fs.type (update fs.data parent
      (fs.data parent ++ entryBytes fs.next name))).Perm
      ([entry fs.next name] ++ linksOf fs.type fs.data) := by
    refine flatMap_range_perm_of_eq (hlt.trans_le ht.next) (fun j hj => ?_) ?_
    · rw [update_of_ne hj]
    · simp only [hp, if_true, update_self]
      exact dirents_append (ht.whole parent hp) (entry_fits (ht.small_inum le_rfl) name)
  have h2 : (linksOf fs'.type fs'.data).Perm
      ((if type = T_DIR then dirents data else []) ++ linksOf fs.type (update fs.data parent
        (fs.data parent ++ entryBytes fs.next name))) := by
    refine flatMap_range_perm_of_eq h.lt (fun j hj => ?_) ?_
    · rw [h.type_of_ne hj, h.data, update_of_ne hj]
    · rw [h.type_next, h.data_next, if_neg hfree, List.nil_append]
  rw [Files.names, h2.countP_eq, List.countP_append, h1.countP_eq, List.countP_append]
  unfold Files.names
  omega

lemma countP_entry {j i : ℕ} {name : List UInt8} : [entry j name].countP (CountsFor i) =
    if j = i ∧ cut name ≠ dot then 1 else 0 := by
  simp [CountsFor, entry]

lemma countP_dots {j p i : ℕ} (hj : j < 2 ^ 16) (hp : p < 2 ^ 16) :
    (dirents (entryBytes j dot ++ entryBytes p dotdot)).countP (CountsFor i) =
      if p = i then 1 else 0 := by
  have hdot : cut dot = dot := by decide
  have hdotdot : cut dotdot ≠ dot := by decide
  rw [dirents_dots hj hp, ← List.singleton_append, List.countP_append, countP_entry, countP_entry]
  simp [hdot, hdotdot]

/-- How the entries are counted: `subs i` directories have been made in the directory `i`, and
`dots i` is one for a file that was given the name `.`. -/
structure Tally (fs : Files) (subs dots : ℕ → ℕ) : Prop where
  count : ∀ i, 0 < i → i < fs.next → fs.names i + dots i = 1 + subs i
  subs : ∀ i, subs i ≠ 0 → fs.type i = T_DIR
  dots : ∀ i, dots i ≠ 0 → fs.type i = T_FILE

/-- The root is the only directory. -/
def OnlyRoot (fs : Files) : Prop := ∀ i, fs.type i = T_DIR → i = ROOTINO

/-- No entry names an inode that is not allocated. -/
lemma Tidy.names_eq_zero (ht : Tidy fs) {i : ℕ} (hi : fs.next ≤ i) : fs.names i = 0 := by
  refine List.countP_eq_zero.mpr fun e he => ?_
  obtain ⟨j, -, he⟩ := List.mem_flatMap.mp he
  split_ifs at he with hj
  · have := (ht.live j hj e he).2
    simp only [CountsFor, decide_eq_true_eq]
    omega
  · exact absurd he List.not_mem_nil

section Tally

variable {subs dots : ℕ → ℕ}

lemma Tally.fresh (h : Tally fs subs dots) (ht : Tidy fs) : subs fs.next = 0 ∧ dots fs.next = 0 := by
  have hfree := ht.free fs.next le_rfl
  constructor <;> by_contra hne
  · exact absurd (hfree.symm.trans (h.subs _ hne)) (by decide)
  · exact absurd (hfree.symm.trans (h.dots _ hne)) (by decide)

/-- A new directory counts for its parent. -/
lemma Tally.mkdir (h : Tally fs subs dots) (ht : Tidy fs) (hp : fs.type parent = T_DIR)
    (hname : cut name ≠ dot)
    (hmade : Made fs fs' parent T_DIR name (entryBytes fs.next dot ++ entryBytes parent dotdot)) :
    Tally fs' (update subs parent (subs parent + 1)) dots := by
  have hlt := ht.lt_next hp
  obtain ⟨hsubs, hdots⟩ := h.fresh ht
  refine ⟨fun i h0 hi => ?_, fun i hi => ?_, fun i hi => ?_⟩
  · rw [hmade.names_eq ht hp, countP_entry, if_pos rfl,
      countP_dots (ht.small_inum le_rfl) (ht.small_inum hlt.le)]
    rw [hmade.next] at hi
    by_cases hin : i = fs.next
    · subst hin
      rw [ht.names_eq_zero le_rfl, if_pos ⟨rfl, hname⟩, if_neg hlt.ne, hdots,
        update_of_ne hlt.ne', hsubs]
    · have hc := h.count i h0 (by omega)
      rw [if_neg (fun hc => hin hc.1.symm)]
      by_cases hip : parent = i
      · subst hip
        rw [if_pos rfl, update_self]
        omega
      · rw [if_neg hip, update_of_ne (Ne.symm hip)]
        omega
  · by_cases hip : i = parent
    · subst hip
      rw [hmade.type_of_ne hlt.ne]
      exact hp
    · rw [update_of_ne hip] at hi
      have hd := h.subs i hi
      rw [hmade.type_of_ne (ht.lt_next hd).ne]
      exact hd
  · have hd := h.dots i hi
    rw [hmade.type_of_ne (by rintro rfl; exact hi hdots)]
    exact hd

/-- A new file is counted unless its name is `.`. -/
lemma Tally.mkfile (h : Tally fs subs dots) (ht : Tidy fs) (hp : fs.type parent = T_DIR)
    {data : List UInt8} (hmade : Made fs fs' parent T_FILE name data) :
    Tally fs' subs (update dots fs.next (if cut name = dot then 1 else 0)) := by
  obtain ⟨hsubs, hdots⟩ := h.fresh ht
  have hkind : ¬ T_FILE = T_DIR := by decide
  refine ⟨fun i h0 hi => ?_, fun i hi => ?_, fun i hi => ?_⟩
  · rw [hmade.names_eq ht hp, countP_entry, if_neg hkind, List.countP_nil]
    rw [hmade.next] at hi
    by_cases hin : i = fs.next
    · subst hin
      rw [ht.names_eq_zero le_rfl, update_self, hsubs]
      by_cases hname : cut name = dot <;> simp [hname]
    · have hc := h.count i h0 (by omega)
      rw [if_neg (fun hc => hin hc.1.symm), update_of_ne hin]
      omega
  · rw [hmade.type_of_ne (by rintro rfl; exact hi hsubs)]
    exact h.subs i hi
  · by_cases hin : i = fs.next
    · rw [hin, hmade.type_next]
    · rw [update_of_ne hin] at hi
      rw [hmade.type_of_ne hin]
      exact h.dots i hi

/-- The counts are all one iff nothing was made that is counted otherwise. -/
lemma Tally.iff (h : Tally fs subs dots) (ht : Tidy fs) :
    (∀ i, 0 < i → i < fs.next → fs.names i = 1) ↔ (∀ i, subs i = 0) ∧ ∀ i, dots i = 0 := by
  constructor
  · intro hone
    have hzero : ∀ i, subs i = 0 ∧ dots i = 0 := by
      intro i
      by_contra hne
      have htype : fs.type i ≠ 0 := by
        intro hz
        refine hne ⟨?_, ?_⟩ <;> by_contra hne'
        · exact absurd (hz.symm.trans (h.subs i hne')) (by decide)
        · exact absurd (hz.symm.trans (h.dots i hne')) (by decide)
      have hi : i < fs.next := by
        by_contra hle
        exact htype (ht.free i (Nat.le_of_not_lt hle))
      have h0 : 0 < i := Nat.pos_of_ne_zero (by rintro rfl; exact htype ht.zero)
      have hc := h.count i h0 hi
      rw [hone i h0 hi] at hc
      -- no inode is a directory and a file
      have hs : subs i ≠ 0 := by omega
      have hd : dots i ≠ 0 := by omega
      exact absurd ((h.subs i hs).symm.trans (h.dots i hd)) (by decide)
    exact ⟨fun i => (hzero i).1, fun i => (hzero i).2⟩
  · rintro ⟨hs, hd⟩ i h0 hi
    have hc := h.count i h0 hi
    rw [hs, hd] at hc
    omega

end Tally

/-! ## Plans that use directories only -/

/-- No path runs through an input file. -/
def dirsOnly : Checks where
  look := fun fs d name => fs.type d = T_DIR ∧
    (fs.lookup d name = 0 ∨ fs.type (fs.lookup d name) = T_DIR)
  link := fun fs d _ => fs.type d = T_DIR

lemma dirsOnly_dirs : dirsOnly.Dirs :=
  ⟨fun _ _ _ h => (of_decide_eq_true h).1, fun _ _ _ h => of_decide_eq_true h⟩

/-- The file is regular. -/
def HostFile.IsRegular : HostFile → Prop
  | .regular _ => True
  | _ => False

/-- The directories of the path are `.` and `..`. -/
def Arg.InRoot (arg : Arg) : Prop :=
  ∀ tok ∈ parents (imgpath arg.hostpath), tok = dot ∨ tok = dotdot

/-- The file is not given the name `.`. -/
def Arg.Named (arg : Arg) : Prop :=
  arg.file.IsRegular → cut (basename (imgpath arg.hostpath)) ≠ dot

lemma Made.onlyRoot {type : ℕ} {data : List UInt8} (h : Made fs fs' parent type name data)
    (ht : Tidy fs) (hroot : OnlyRoot fs') : OnlyRoot fs := by
  intro i hi
  refine hroot i ?_
  rw [h.type_of_ne (ht.lt_next hi).ne]
  exact hi

/-- The root stays the only directory iff the path has no other directories. -/
lemma ensurePath_onlyRoot {toks : List (List UInt8)} {p' : ℕ} (ht : Tidy fs)
    (hcall : fs.ensurePath dirsOnly ROOTINO toks = .ok (p', fs')) :
    OnlyRoot fs' ↔ OnlyRoot fs ∧ ∀ tok ∈ toks, tok = dot ∨ tok = dotdot := by
  constructor
  · intro hroot
    -- the directories on the way are found, and they are the root
    have hI := (ensurePath_induction dirsOnly_dirs (Q := fun _ => True)
      (I := fun done p fs1 => OnlyRoot fs1 →
        OnlyRoot fs ∧ p = ROOTINO ∧ ∀ tok ∈ done, tok = dot ∨ tok = dotdot)
      (fun {done p fs1 tok} ht1 hp hI hlook hv hroot => ?_)
      (fun {done p fs1 tok fs2} ht1 hp hI _ hlook hv hlink hmade hroot => ?_)
      [] ht ht.rootino_lt (fun _ _ => trivial)
      (fun h => ⟨h, rfl, by simp⟩) hcall).2.2 hroot
    · exact ⟨hI.1, by simpa using hI.2.2⟩
    · obtain ⟨h, rfl, hdone⟩ := hI hroot
      have htype := (of_decide_eq_true hlook).2.resolve_left hv
      have hv' := hroot _ htype
      refine ⟨h, hv', fun t hmem => ?_⟩
      rcases List.mem_append.mp hmem with hmem | hmem
      · exact hdone t hmem
      · rw [List.mem_singleton.mp hmem]
        exact ht1.lookup_root.mp hv'
    · exact absurd (hroot _ hmade.type_next) ht1.rootino_lt.ne'
  · rintro ⟨hroot, hdots⟩
    induction toks with
    | nil =>
      rw [Files.ensurePath, Except.ok.injEq, Prod.mk.injEq] at hcall
      exact hcall.2 ▸ hroot
    | cons tok toks ih =>
      rw [Files.ensurePath] at hcall
      obtain ⟨v, hv, hcall⟩ := bind_eq_ok.mp hcall
      obtain ⟨-, -, rfl⟩ := tryLookup_eq_ok hv
      rw [ht.lookup_root.mpr (hdots tok List.mem_cons_self), if_neg (by decide)] at hcall
      exact ih hcall fun t h => hdots t (List.mem_cons_of_mem _ h)

/-- What is counted along a plan. -/
structure Planned (args : List Arg) (fs : Files) (subs dots : ℕ → ℕ) : Prop where
  tally : Tally fs subs dots
  subs : (∀ i, subs i = 0) ↔ OnlyRoot fs
  inRoot : OnlyRoot fs ↔ ∀ arg ∈ args, arg.InRoot
  dots : (∀ i, dots i = 0) ↔ ∀ arg ∈ args, arg.Named

/-- The counts along the directories of a path. -/
lemma ensurePath_tally {subs dots : ℕ → ℕ} {toks : List (List UInt8)} {p p' : ℕ} (ht : Tidy fs)
    (hp : p < fs.next) (hnul : ∀ tok ∈ toks, 0 ∉ tok) (htally : Tally fs subs dots)
    (hsubs : (∀ i, subs i = 0) ↔ OnlyRoot fs)
    (hcall : fs.ensurePath dirsOnly p toks = .ok (p', fs')) :
    Tidy fs' ∧ p' < fs'.next ∧
      ∃ subs', Tally fs' subs' dots ∧ ((∀ i, subs' i = 0) ↔ OnlyRoot fs') := by
  refine ensurePath_induction dirsOnly_dirs
    (I := fun _ _ fs' => ∃ subs', Tally fs' subs' dots ∧ ((∀ i, subs' i = 0) ↔ OnlyRoot fs'))
    (Q := (0 ∉ ·)) (fun _ _ h _ _ => h)
    (fun {done p fs1 tok fs2} ht1 hp ⟨subs', h, hsubs'⟩ hnul _ hv _ hmade => ?_)
    [] ht hp hnul ⟨subs, htally, hsubs⟩ hcall
  have hname : cut tok ≠ dot := by
    intro hcut
    rw [eq_of_cut_eq hnul (by decide) hcut, ht1.lookup_dot hp] at hv
    rw [hv, ht1.zero] at hp
    exact absurd hp (by decide)
  refine ⟨_, h.mkdir ht1 hp hname hmade, iff_of_false (fun hz => ?_) fun hroot => ?_⟩
  · have := hz p
    rw [update_self] at this
    exact absurd this (Nat.succ_ne_zero _)
  · exact absurd (hroot _ hmade.type_next) ht1.rootino_lt.ne'

lemma onlyRoot_root : OnlyRoot Files.root := by
  intro i hi
  have := tidy_root.lt_next hi
  have h2 : Files.root.next = 2 := rfl
  have h0 : i ≠ 0 := by
    rintro rfl
    exact absurd hi (by decide)
  have h1 : ROOTINO = 1 := rfl
  omega

/-- The files of a plan, with what is counted. -/
lemma planned_of_plan {args : List Arg} (h : plan dirsOnly args = .ok fs) :
    Tidy fs ∧ ∃ subs dots, Planned args fs subs dots := by
  refine plan_induction (J := fun args fs => Tidy fs ∧ ∃ subs dots, Planned args fs subs dots)
    ⟨tidy_root, fun _ => 0, fun _ => 0, ?_, ?_, ?_, by simp⟩ ?_ h
  · refine ⟨fun i h0 hi => ?_, fun i h => absurd rfl h, fun i h => absurd rfl h⟩
    have h2 : Files.root.next = 2 := rfl
    obtain rfl : i = 1 := by omega
    decide +kernel
  · exact iff_of_true (fun _ => rfl) onlyRoot_root
  · exact iff_of_true onlyRoot_root (by simp)
  · rintro done arg fs fs' ⟨ht, subs, dots, hP⟩ hcall
    obtain ⟨p, fs1, hpath, hfile⟩ := addArg_eq_ok hcall
    obtain ⟨ht1, hp, subs1, htally, hsubs⟩ := ensurePath_tally ht ht.rootino_lt
      (fun tok => arg.notMem_of_mem_parents) hP.tally hP.subs hpath
    have hroot : OnlyRoot fs1 ↔ ∀ a ∈ done ++ [arg], a.InRoot := by
      rw [ensurePath_onlyRoot ht hpath, hP.inRoot, List.forall_mem_append,
        List.forall_mem_singleton]
      rfl
    obtain ⟨hostpath, file, hnul⟩ := arg
    cases file with
    | regular reads =>
      obtain ⟨hlink, hmade⟩ := mkfile_made hp.ne hfile
      have hlink' : (fs1.ialloc T_FILE).type p = T_DIR := of_decide_eq_true hlink
      have hpdir : fs1.type p = T_DIR := by
        rwa [Files.ialloc_type_of_ne hp.ne] at hlink'
      have hsame : OnlyRoot fs' ↔ OnlyRoot fs1 := by
        refine ⟨hmade.onlyRoot ht1, fun h i hi => ?_⟩
        by_cases hin : i = fs1.next
        · rw [hin, hmade.type_next] at hi
          exact absurd hi (by decide)
        · exact h i (hmade.type_of_ne hin ▸ hi)
      refine ⟨hmade.tidy ht1 hpdir (Or.inr rfl), subs1, _, htally.mkfile ht1 hpdir hmade,
        hsubs.trans hsame.symm, hsame.trans hroot, ?_⟩
      rw [List.forall_mem_append, List.forall_mem_singleton, ← hP.dots]
      have hfresh := (htally.fresh ht1).2
      constructor
      · intro hz
        have hnext := hz fs1.next
        rw [update_self] at hnext
        refine ⟨fun i => ?_, fun _ hdot => ?_⟩
        · by_cases hin : i = fs1.next
          · rw [hin, hfresh]
          · have := hz i
            rwa [update_of_ne hin] at this
        · rw [if_pos hdot] at hnext
          exact absurd hnext (by decide)
      · rintro ⟨hz, hnamed⟩ i
        by_cases hin : i = fs1.next
        · rw [hin, update_self, if_neg (hnamed trivial)]
        · rw [update_of_ne hin]
          exact hz i
    | _ =>
      obtain rfl := hfile
      refine ⟨ht1, subs1, dots, htally, hsubs, hroot, ?_⟩
      rw [List.forall_mem_append, List.forall_mem_singleton, ← hP.dots]
      exact (and_iff_left fun h => h.elim).symm

/-! ## The finished image -/

/-- The contents of the files of a finished image: the root directory is filled up with zeroes. -/
lemma Finishes.contents_eq {im im' : Image} (hf : Finishes im im') (h : Shows im fs) {i : ℕ}
    (hi : i < NINODES) : ∃ m, contents im'.disk (im'.inode i) = fs.data i ++ List.replicate m 0 ∧
      (i ≠ ROOTINO → m = 0) := by
  have hbyte : ∀ k, fileByte im'.disk (im'.inode i).addrs k = (fs.data i).getD k 0 := by
    intro k
    have haddrs : (im'.inode i).addrs = (im.inode i).addrs := by
      by_cases hne : i = ROOTINO
      · rw [hne, hf.self, roundSize]
      · rw [hf.inode i hi hne]
    rw [h.getD_data hi, haddrs]
    exact fileByte_congr (fun b hb => hf.disk b (h.sound.le (blocksOf_subset hi hb))) k
  have hlen : (fs.data i).length = (im.inode i).size := by
    rw [← h.data i hi, length_contents]
  have hle : (fs.data i).length ≤ (im'.inode i).size := by
    rw [hlen]
    by_cases hne : i = ROOTINO
    · have hB : BSIZE = 512 := rfl
      rw [hne, hf.self, roundSize, hB]
      simp only
      omega
    · rw [hf.inode i hi hne]
  refine ⟨(im'.inode i).size - (fs.data i).length, ?_, fun hne => ?_⟩
  · refine List.ext_getElem ?_ fun k hk hk' => ?_
    · simp only [length_contents, List.length_append, List.length_replicate]
      omega
    · simp only [contents, List.getElem_map, List.getElem_range, hbyte]
      by_cases hkl : k < (fs.data i).length
      · rw [List.getElem_append_left hkl, List.getD_eq_getElem _ _ hkl]
      · rw [List.getElem_append_right (Nat.le_of_not_lt hkl), List.getElem_replicate,
          List.getD_eq_default _ _ (Nat.le_of_not_lt hkl)]
  · rw [hf.inode i hi hne, hlen, Nat.sub_self]

/-- The number of entries of the image that name an inode, other than `.`. -/
def Image.names (im : Image) (i : ℕ) : ℕ :=
  (linksOf (fun j => (im.inode j).type) fun j => contents im.disk (im.inode j)).countP (CountsFor i)

/-- The link counts of the image are those of the kernel. -/
def LinkCounts (im : Image) : Prop :=
  ∀ i, 0 < i → i < sb.ninodes → (im.inode i).type ≠ 0 → (im.inode i).nlink = im.names i

lemma Finishes.type_eq {im im' : Image} (hf : Finishes im im') {i : ℕ} (hi : i < NINODES) :
    (im'.inode i).type = (im.inode i).type ∧ (im'.inode i).nlink = (im.inode i).nlink := by
  by_cases hne : i = ROOTINO
  · rw [hne, hf.self, roundSize]
    exact ⟨rfl, rfl⟩
  · rw [hf.inode i hi hne]
    exact ⟨rfl, rfl⟩

/-- The entries of the image are those of the plan. -/
lemma Finishes.names_eq {im im' : Image} (hf : Finishes im im') (h : Shows im fs) (ht : Tidy fs)
    {i : ℕ} (h0 : 0 < i) : im'.names i = fs.names i := by
  unfold Image.names Files.names linksOf
  rw [List.countP_flatMap, List.countP_flatMap]
  refine congrArg List.sum (List.map_congr_left fun j hj => ?_)
  have hj := List.mem_range.mp hj
  simp only [Function.comp_apply, (hf.type_eq hj).1, h.type j hj]
  split_ifs with hd
  · obtain ⟨m, hm, -⟩ := hf.contents_eq h hj
    obtain ⟨rest, hrest, hdead⟩ := dirents_append_zeroes (ht.whole j hd) m
    rw [hm, hrest, List.countP_append, Nat.add_eq_left, List.countP_eq_zero]
    intro e he
    simp only [CountsFor, hdead e he, decide_eq_true_eq]
    omega
  · rfl

/-- What the counts of the image are compared to. -/
lemma Finishes.linkCounts_iff {im im' : Image} (hf : Finishes im im') (h : Shows im fs)
    (ht : Tidy fs) : LinkCounts im' ↔ ∀ i, 0 < i → i < fs.next → fs.names i = 1 := by
  refine ⟨fun hc i h0 hi => ?_, fun hc i h0 hi htype => ?_⟩
  · have hi' := hi.trans_le ht.next
    have := hc i h0 hi'
    rw [(hf.type_eq hi').1, (hf.type_eq hi').2, h.type i hi', h.nlink i hi',
      ht.nlink i h0 hi, hf.names_eq h ht h0] at this
    refine (this ?_).symm
    rcases ht.kinds i h0 hi with hk | hk <;> rw [hk] <;> decide
  · have hi' : i < NINODES := hi
    rw [(hf.type_eq hi').1, h.type i hi'] at htype
    have hlt : i < fs.next := by
      by_contra hle
      exact htype (ht.free i (Nat.le_of_not_lt hle))
    rw [(hf.type_eq hi').2, h.nlink i hi', ht.nlink i h0 hlt, hf.names_eq h ht h0, hc i h0 hlt]

/-- A finished image and the files that were planned. -/
lemma finishes_of_mkfs {args : List Arg} {junk : Junk} {im : Image} (h : mkfs args junk = .ok im)
    (hplan : plan c args = .ok fs) : ∃ im0, Shows im0 fs ∧ Finishes im0 im := by
  obtain ⟨im0, junk0, junk1, hbuild, hend, hfit⟩ := mkfs_eq_ok h
  have hf := build_follows c hbuild hfit
  rw [hplan] at hf
  exact ⟨im0, hf.image, finishes_of_balloc hf.image.sound hend⟩

/-- One empty file in a directory: `d/x`. -/
def fileInDir : List Arg := [⟨[100, 47, 120], .regular [], by decide⟩]

end Xv7.Mkfs
