import Xv7.Mkfs.WellFormed

/-!
# The directories of a planned image

What a new directory and a new file add to the files, and what the files keep as long as entries
are made and looked up in directories only.  Properties of a plan are proved by induction along
the directories and files that it makes.
-/

namespace Xv7.Mkfs

open Function (update_eq_self update_of_ne update_self)
open Fallible

variable {fs fs' fs1 : Files} {c : Checks} {parent inum : ℕ} {name : List UInt8}

lemma Files.ialloc_type_of_ne {i type : ℕ} (hi : i ≠ fs.next) :
    (fs.ialloc type).type i = fs.type i := update_of_ne hi _ _

/-! ## What is made -/

/-- An inode is allocated and entered in a directory. -/
structure Made (fs fs' : Files) (parent type : ℕ) (name data : List UInt8) : Prop where
  lt : fs.next < NINODES
  parent_lt : parent < NINODES
  next : fs'.next = fs.next + 1
  type : fs'.type = Function.update fs.type fs.next type
  nlink : fs'.nlink = Function.update fs.nlink fs.next 1
  data : fs'.data = Function.update
    (Function.update fs.data parent (fs.data parent ++ entryBytes fs.next name)) fs.next data

lemma tryAlloc_eq_ok {type : ℕ} {r : ℕ × Files} (h : fs.tryAlloc type = .ok r) :
    fs.next < NINODES ∧ r = (fs.next, fs.ialloc type) := by
  unfold Files.tryAlloc at h
  split_ifs at h with hlt
  exact ⟨hlt, (Except.ok.inj h).symm⟩

lemma tryAppend_eq_ok {p : List UInt8} (h : fs.tryAppend inum p = .ok fs') :
    inum < NINODES ∧ fs' = fs.iappend inum p := by
  unfold Files.tryAppend at h
  split_ifs at h with hlt
  exact ⟨hlt, (Except.ok.inj h).symm⟩

lemma tryLink_eq_ok {dir : ℕ} (h : fs.tryLink c dir inum name = .ok fs') :
    c.link fs dir name = true ∧ dir < NINODES ∧ fs' = fs.iappend dir (entryBytes inum name) := by
  unfold Files.tryLink at h
  split_ifs at h with hlink
  exact ⟨hlink, tryAppend_eq_ok h⟩

lemma copyReads_eq_ok {reads : List (List UInt8)} (h : fs.copyReads inum reads = .ok fs') :
    fs' = fs.iappend inum reads.flatten := by
  induction reads generalizing fs with
  | nil =>
    rw [← Except.ok.inj h, Files.iappend, List.flatten_nil, List.append_nil, update_eq_self]
  | cons p reads ih =>
    obtain ⟨fs1, h1, h⟩ := bind_eq_ok.mp h
    rw [ih h, (tryAppend_eq_ok h1).2]
    simp [Files.iappend]

lemma mkdir_made (hne : parent ≠ fs.next) (h : fs.mkdir c parent name = .ok (inum, fs')) :
    c.link (fs.ialloc T_DIR) parent name = true ∧ inum = fs.next ∧
      Made fs fs' parent T_DIR name (entryBytes fs.next dot ++ entryBytes parent dotdot) := by
  obtain ⟨r, hr, h⟩ := bind_eq_ok.mp h
  obtain ⟨hlt, rfl⟩ := tryAlloc_eq_ok hr
  obtain ⟨fs1, h1, h⟩ := bind_eq_ok.mp h
  obtain ⟨hlink, hp, rfl⟩ := tryLink_eq_ok h1
  obtain ⟨fs2, h2, h⟩ := bind_eq_ok.mp h
  obtain ⟨-, rfl⟩ := tryAppend_eq_ok h2
  obtain ⟨fs3, h3, h⟩ := bind_eq_ok.mp h
  obtain ⟨-, rfl⟩ := tryAppend_eq_ok h3
  rw [Except.ok.injEq, Prod.mk.injEq] at h
  obtain ⟨rfl, rfl⟩ := h
  refine ⟨hlink, rfl, hlt, hp, rfl, rfl, rfl, funext fun i => ?_⟩
  by_cases hi : i = fs.next
  · subst hi
    simp [Files.iappend, Files.ialloc, hne.symm]
  · by_cases hip : i = parent
    · subst hip
      simp [Files.iappend, Files.ialloc, hi]
    · simp [Files.iappend, Files.ialloc, hi, hip]

lemma mkfile_made {reads : List (List UInt8)} (hne : parent ≠ fs.next)
    (h : fs.mkfile c parent name reads = .ok fs') :
    c.link (fs.ialloc T_FILE) parent name = true ∧
      Made fs fs' parent T_FILE name reads.flatten := by
  obtain ⟨r, hr, h⟩ := bind_eq_ok.mp h
  obtain ⟨hlt, rfl⟩ := tryAlloc_eq_ok hr
  obtain ⟨fs1, h1, h⟩ := bind_eq_ok.mp h
  obtain ⟨hlink, hp, rfl⟩ := tryLink_eq_ok h1
  obtain rfl := copyReads_eq_ok h
  refine ⟨hlink, hlt, hp, rfl, rfl, rfl, funext fun i => ?_⟩
  by_cases hi : i = fs.next
  · subst hi
    simp [Files.iappend, Files.ialloc, hne.symm]
  · by_cases hip : i = parent
    · subst hip
      simp [Files.iappend, Files.ialloc, hi]
    · simp [Files.iappend, Files.ialloc, hi, hip]

namespace Made

variable {type : ℕ} {data : List UInt8} (h : Made fs fs' parent type name data)

include h

lemma type_of_ne {i : ℕ} (hi : i ≠ fs.next) : fs'.type i = fs.type i := by
  rw [h.type, update_of_ne hi]

lemma type_next : fs'.type fs.next = type := by rw [h.type, update_self]

lemma data_next : fs'.data fs.next = data := by rw [h.data, update_self]

lemma data_parent (hne : parent ≠ fs.next) :
    fs'.data parent = fs.data parent ++ entryBytes fs.next name := by
  rw [h.data, update_of_ne hne, update_self]

lemma data_of_ne {i : ℕ} (hi : i ≠ fs.next) (hip : i ≠ parent) : fs'.data i = fs.data i := by
  rw [h.data, update_of_ne hi, update_of_ne hip]

end Made

/-! ## What the files keep -/

/-- The entry of a name as it is stored. -/
def entry (inum : ℕ) (name : List UInt8) : Dirent := ⟨inum, strncpy DIRSIZ name⟩

lemma entry_fits {inum : ℕ} (h : inum < 2 ^ 16) (name : List UInt8) : (entry inum name).Fits :=
  ⟨h, length_strncpy _ _⟩

/-- The entries of a directory. -/
def Files.dir (fs : Files) (i : ℕ) : List Dirent := dirents (fs.data i)

/-- The allocated inodes are files or directories with one link, and a directory is a list of
entries for allocated inodes that starts with `.` and `..`. -/
structure Tidy (fs : Files) : Prop where
  root : fs.type ROOTINO = T_DIR
  next : fs.next ≤ NINODES
  free : ∀ i, fs.next ≤ i → fs.type i = 0
  zero : fs.type 0 = 0
  kinds : ∀ i, 0 < i → i < fs.next → fs.type i = T_DIR ∨ fs.type i = T_FILE
  nlink : ∀ i, 0 < i → i < fs.next → fs.nlink i = 1
  whole : ∀ i, fs.type i = T_DIR → (fs.data i).length % DIRENTSIZE = 0
  small : ∀ i, fs.type i = T_DIR → (fs.data i).length ≤ DIRENTSIZE * (fs.next + 1)
  live : ∀ i, fs.type i = T_DIR → ∀ e ∈ fs.dir i, 0 < e.inum ∧ e.inum < fs.next
  dots : ∀ i, fs.type i = T_DIR → ∃ p rest, fs.dir i = entry i dot :: entry p dotdot :: rest
  rootDots : ∃ rest, fs.dir ROOTINO = entry ROOTINO dot :: entry ROOTINO dotdot :: rest ∧
    ∀ e ∈ rest, e.inum ≠ ROOTINO

lemma entryBytes_eq (inum : ℕ) (name : List UInt8) : entryBytes inum name = (entry inum name).bytes :=
  rfl

/-- The entries of a new directory. -/
lemma dirents_dots {i p : ℕ} (hi : i < 2 ^ 16) (hp : p < 2 ^ 16) :
    dirents (entryBytes i dot ++ entryBytes p dotdot) = [entry i dot, entry p dotdot] := by
  have h1 : dirents (entryBytes i dot) = [entry i dot] := by
    have := dirents_append (show ([] : List UInt8).length % DIRENTSIZE = 0 from rfl)
      (entry_fits hi dot)
    rwa [List.nil_append] at this
  rw [entryBytes_eq p, dirents_append (by rw [length_entryBytes]; rfl) (entry_fits hp dotdot), h1]
  rfl

lemma Tidy.lt_next (h : Tidy fs) {i : ℕ} (hi : fs.type i = T_DIR) : i < fs.next := by
  by_contra hle
  rw [h.free i (Nat.le_of_not_lt hle)] at hi
  exact absurd hi (by decide)

lemma Tidy.small_inum (h : Tidy fs) {i : ℕ} (hi : i ≤ fs.next) : i < 2 ^ 16 :=
  (hi.trans h.next).trans_lt (by decide)

lemma Tidy.rootino_lt (h : Tidy fs) : ROOTINO < fs.next := h.lt_next h.root

section Made

variable {type : ℕ} {data : List UInt8} (ht : Tidy fs) (hp : fs.type parent = T_DIR)
  (h : Made fs fs' parent type name data)

include ht hp h

/-- The directory gets one more entry. -/
lemma Made.dir_parent : fs'.dir parent = fs.dir parent ++ [entry fs.next name] := by
  have hne := (ht.lt_next hp).ne
  rw [Files.dir, h.data_parent hne, entryBytes_eq]
  exact dirents_append (ht.whole parent hp) (entry_fits (ht.small_inum le_rfl) name)

/-- The files stay tidy when a file or a directory is made in a directory. -/
lemma Made.tidy (hkind : type = T_DIR ∧ data = entryBytes fs.next dot ++ entryBytes parent dotdot ∨
    type = T_FILE) : Tidy fs' := by
  have hlt := ht.lt_next hp
  have hroot := ht.rootino_lt
  have hE : DIRENTSIZE = 16 := rfl
  have hnext := h.next
  -- the directories of before and the new one
  have hdirs : ∀ {P : ℕ → Prop}, (∀ i, i ≠ fs.next → fs.type i = T_DIR → P i) →
      (type = T_DIR → data = entryBytes fs.next dot ++ entryBytes parent dotdot → P fs.next) →
      ∀ i, fs'.type i = T_DIR → P i := by
    intro P hold hnew i hi
    by_cases hin : i = fs.next
    · subst hin
      rw [h.type_next] at hi
      refine hnew hi (hkind.resolve_right fun hf => ?_).2
      rw [hi] at hf
      exact absurd hf (by decide)
    · exact hold i hin (h.type_of_ne hin ▸ hi)
  have hdata : ∀ i, i ≠ fs.next → (fs'.data i).length = (fs.data i).length ∨
      (fs'.data i).length = (fs.data i).length + DIRENTSIZE := by
    intro i hi
    by_cases hip : i = parent
    · subst hip
      right
      rw [h.data_parent hlt.ne, List.length_append, length_entryBytes, hE]
    · left
      rw [h.data_of_ne hi hip]
  have hdir : ∀ i, i ≠ fs.next → i ≠ parent → fs'.dir i = fs.dir i := fun i hi hip =>
    congrArg dirents (h.data_of_ne hi hip)
  have hnew : data = entryBytes fs.next dot ++ entryBytes parent dotdot →
      fs'.dir fs.next = [entry fs.next dot, entry parent dotdot] := by
    intro hd
    rw [Files.dir, h.data_next, hd]
    exact dirents_dots (ht.small_inum le_rfl) (ht.small_inum hlt.le)
  have hpos : 0 < parent := by
    refine Nat.pos_of_ne_zero ?_
    rintro rfl
    rw [ht.zero] at hp
    exact absurd hp (by decide)
  refine ⟨?_, ?_, fun i hi => ?_, ?_, fun i h0 hi => ?_, fun i h0 hi => ?_, hdirs ?_ ?_, hdirs ?_ ?_,
    hdirs ?_ ?_, hdirs ?_ ?_, ?_⟩
  · rw [h.type_of_ne hroot.ne]
    exact ht.root
  · rw [hnext]
    exact h.lt
  · rw [h.type_of_ne (by omega)]
    exact ht.free i (by omega)
  · rw [h.type_of_ne (by omega)]
    exact ht.zero
  · by_cases hin : i = fs.next
    · rw [hin, h.type_next]
      exact hkind.imp And.left id
    · rw [h.type_of_ne hin]
      exact ht.kinds i h0 (by omega)
  · rw [h.nlink]
    by_cases hin : i = fs.next
    · rw [hin, update_self]
    · rw [update_of_ne hin]
      exact ht.nlink i h0 (by omega)
  · intro i hi hd
    have := ht.whole i hd
    rcases hdata i hi with hl | hl
    · rwa [hl]
    · rw [hl, Nat.add_mod_right]
      exact this
  · intro _ hd
    rw [h.data_next, hd, List.length_append, length_entryBytes, length_entryBytes]
    rfl
  · intro i hi hd
    have := ht.small i hd
    rw [hnext]
    rcases hdata i hi with hl | hl
    · rw [hE] at this ⊢
      omega
    · rw [hE] at this hl ⊢
      omega
  · intro _ hd
    rw [h.data_next, hd, hE]
    simp only [List.length_append, length_entryBytes]
    omega
  · intro i hi hd e he
    rw [hnext]
    by_cases hip : i = parent
    · subst hip
      rw [h.dir_parent ht hp] at he
      rcases List.mem_append.mp he with he | he
      · have := ht.live i hd e he
        omega
      · rw [List.mem_singleton.mp he]
        exact ⟨by change 0 < fs.next; omega, Nat.lt_succ_self _⟩
    · rw [hdir i hi hip] at he
      have := ht.live i hd e he
      omega
  · intro _ hd e he
    rw [hnew hd] at he
    rw [hnext]
    rcases List.mem_cons.mp he with rfl | he
    · exact ⟨by change 0 < fs.next; omega, Nat.lt_succ_self _⟩
    · rw [List.mem_singleton.mp he]
      exact ⟨hpos, Nat.lt_succ_of_lt hlt⟩
  · intro i hi hd
    obtain ⟨p, rest, hrest⟩ := ht.dots i hd
    by_cases hip : i = parent
    · subst hip
      refine ⟨p, rest ++ [entry fs.next name], ?_⟩
      rw [h.dir_parent ht hp, hrest]
      rfl
    · exact ⟨p, rest, (hdir i hi hip).trans hrest⟩
  · intro _ hd
    exact ⟨parent, [], hnew hd⟩
  · obtain ⟨rest, hrest, hne⟩ := ht.rootDots
    by_cases hip : ROOTINO = parent
    · subst hip
      refine ⟨rest ++ [entry fs.next name], ?_, fun e he => ?_⟩
      · rw [h.dir_parent ht hp, hrest]
        rfl
      · rcases List.mem_append.mp he with he | he
        · exact hne e he
        · rw [List.mem_singleton.mp he]
          exact hroot.ne'
    · exact ⟨rest, (hdir _ hroot.ne hip).trans hrest, hne⟩

end Made

lemma tidy_root : Tidy Files.root := by
  have hdir : Files.root.dir ROOTINO = [entry ROOTINO dot, entry ROOTINO dotdot] := by
    decide +kernel
  have htype : ∀ i, Files.root.type i = T_DIR → i = ROOTINO := by
    intro i hi
    by_contra hne
    have : Files.root.type i = 0 := update_of_ne hne _ _
    rw [this] at hi
    exact absurd hi (by decide)
  have hlast : ∀ i, 0 < i → i < Files.root.next → i = ROOTINO := by
    intro i h0 hi
    have h2 : Files.root.next = 2 := rfl
    have h1 : ROOTINO = 1 := rfl
    omega
  refine ⟨rfl, by decide, fun i hi => ?_, rfl, fun i h0 hi => ?_, fun i h0 hi => ?_,
    fun i hi => ?_, fun i hi => ?_, fun i hi => ?_, fun i hi => ?_, [], hdir, by simp⟩
  · exact update_of_ne (by rintro rfl; exact absurd hi (by decide)) _ _
  · rw [hlast i h0 hi]
    exact Or.inl rfl
  · rw [hlast i h0 hi]
    rfl
  · rw [htype i hi]
    decide +kernel
  · rw [htype i hi]
    decide +kernel
  · rw [htype i hi, hdir]
    decide
  · rw [htype i hi]
    exact ⟨ROOTINO, [], hdir⟩

/-! ## Looking up a name -/

/-- `dirlookup` of `mkfs` looks at the entries of a tidy directory in order. -/
lemma Tidy.lookup_eq (ht : Tidy fs) {d : ℕ} (hd : fs.type d = T_DIR) (name : List UInt8) :
    fs.lookup d name = ((fs.dir d).findSome? (matchEntry name)).getD 0 := by
  have hE : DIRENTSIZE = 16 := rfl
  have hsmall := ht.small d hd
  have hwhole := ht.whole d hd
  have hnext := ht.next
  have hN : NINODES = 200 := rfl
  have hQ : NDIRECT * (BSIZE / DIRENTSIZE) = 320 := rfl
  rw [hE] at hsmall hwhole
  obtain ⟨m, hm⟩ : ∃ m, NDIRECT * (BSIZE / DIRENTSIZE) = (fs.data d).length / DIRENTSIZE + m :=
    Nat.exists_eq_add_of_le (by rw [hQ, hE]; omega)
  rw [Files.lookup, hm, List.range_add, List.findSome?_append]
  have hrest : (List.map ((fs.data d).length / DIRENTSIZE + ·) (List.range m)).findSome?
      (fun j => matchEntry name
        (getDirent (fun k => (fs.data d).getD k 0) (DIRENTSIZE * j))) = none := by
    refine List.findSome?_eq_none_iff.mpr fun j hj => matchEntry_zero name fun k _ => ?_
    obtain ⟨i, -, rfl⟩ := List.mem_map.mp hj
    refine List.getD_eq_default _ _ ?_
    rw [hE]
    omega
  rw [hrest, Option.or_none, Files.dir, dirents, List.findSome?_map]
  rfl

/-- What is found is the inode number of an entry with the name. -/
lemma Tidy.exists_of_lookup (ht : Tidy fs) {d : ℕ} (hd : fs.type d = T_DIR) {name : List UInt8}
    (h : fs.lookup d name ≠ 0) :
    ∃ e ∈ fs.dir d, e.inum = fs.lookup d name ∧ entryName e.name = name := by
  rw [ht.lookup_eq hd] at h ⊢
  rcases hf : (fs.dir d).findSome? (matchEntry name) with _ | v
  · simp [hf] at h
  · obtain ⟨e, he, hv⟩ := List.exists_of_findSome?_eq_some hf
    unfold matchEntry at hv
    split_ifs at hv with hmatch
    exact ⟨e, he, Option.some.inj hv, hmatch.2⟩

lemma Tidy.lookup_lt (ht : Tidy fs) {d : ℕ} (hd : fs.type d = T_DIR) {name : List UInt8}
    (h : fs.lookup d name ≠ 0) : fs.lookup d name < fs.next := by
  obtain ⟨e, he, heq, -⟩ := ht.exists_of_lookup hd h
  exact heq ▸ (ht.live d hd e he).2

lemma entryName_dot : entryName (strncpy DIRSIZ dot) = dot := by decide

lemma entryName_dotdot : entryName (strncpy DIRSIZ dotdot) = dotdot := by decide

/-- The name `.` is found in every directory. -/
lemma Tidy.lookup_dot (ht : Tidy fs) {d : ℕ} (hd : fs.type d = T_DIR) : fs.lookup d dot = d := by
  obtain ⟨p, rest, hrest⟩ := ht.dots d hd
  have h0 : d ≠ 0 := by
    rintro rfl
    rw [ht.zero] at hd
    exact absurd hd (by decide)
  rw [ht.lookup_eq hd, hrest, List.findSome?_cons]
  simp [matchEntry, entry, entryName_dot, h0]

/-- In the root directory the names `.` and `..` are found, and only they stand for it. -/
lemma Tidy.lookup_root (ht : Tidy fs) {name : List UInt8} :
    fs.lookup ROOTINO name = ROOTINO ↔ name = dot ∨ name = dotdot := by
  obtain ⟨rest, hrest, hne⟩ := ht.rootDots
  constructor
  · intro h
    obtain ⟨e, he, heq, hname⟩ := ht.exists_of_lookup ht.root (by rw [h]; decide)
    rw [hrest] at he
    rcases List.mem_cons.mp he with rfl | he
    · exact Or.inl (hname.symm.trans entryName_dot)
    · rcases List.mem_cons.mp he with rfl | he
      · exact Or.inr (hname.symm.trans entryName_dotdot)
      · exact absurd (heq.trans h) (hne e he)
  · rintro (rfl | rfl)
    · exact ht.lookup_dot ht.root
    · have hfirst : matchEntry dotdot (entry ROOTINO dot) = none := by decide
      have hsecond : matchEntry dotdot (entry ROOTINO dotdot) = some ROOTINO := by decide
      rw [ht.lookup_eq ht.root, hrest, List.findSome?_cons, hfirst, List.findSome?_cons, hsecond]
      rfl

/-! ## Names without NUL bytes -/

lemma notMem_of_mem_splitOn {path tok : List UInt8} (h : 0 ∉ path)
    (htok : tok ∈ path.splitOn slash) : 0 ∉ tok := by
  unfold List.splitOn at htok
  induction path generalizing tok with
  | nil =>
    obtain rfl : tok = [] := by simpa using htok
    exact List.not_mem_nil
  | cons c path ih =>
    rw [List.mem_cons, not_or] at h
    rw [List.splitOnP_cons_eq_if_modifyHead] at htok
    split_ifs at htok
    · rcases List.mem_cons.mp htok with rfl | htok
      · exact List.not_mem_nil
      · exact ih h.2 htok
    · rcases hl : path.splitOnP (· == slash) with _ | ⟨l, ls⟩
      · rw [hl] at htok
        exact absurd htok List.not_mem_nil
      · rw [hl, List.modifyHead_cons] at htok
        rw [hl] at ih
        rcases List.mem_cons.mp htok with rfl | htok
        · rw [List.mem_cons, not_or]
          exact ⟨h.1, ih h.2 List.mem_cons_self⟩
        · exact ih h.2 (List.mem_cons_of_mem _ htok)

lemma notMem_imgpath {hostpath : List UInt8} (h : 0 ∉ hostpath) : 0 ∉ imgpath hostpath := by
  intro hmem
  have hmem := (List.rdropWhile_prefix _ _).subset hmem
  split_ifs at hmem
  · exact h (List.mem_of_mem_take (List.mem_of_mem_drop hmem))
  · exact h (List.mem_of_mem_take hmem)

/-- The directories of a path have no NUL bytes. -/
lemma Arg.notMem_of_mem_parents (arg : Arg) {tok : List UInt8}
    (h : tok ∈ parents (imgpath arg.hostpath)) : 0 ∉ tok := by
  unfold parents at h
  split_ifs at h
  · refine notMem_of_mem_splitOn (fun hmem => ?_) (List.mem_of_mem_filter h)
    exact notMem_imgpath arg.string
      ((List.rdropWhile_prefix _ _).subset (List.mem_of_mem_dropLast hmem))
  · exact absurd h List.not_mem_nil

/-- A name without NUL bytes is cut to its first bytes. -/
lemma cut_eq_take {name : List UInt8} (h : 0 ∉ name) : cut name = name.take DIRSIZ := by
  rw [cut, strn, List.takeWhile_eq_self_iff]
  intro c hc
  simp only [decide_eq_true_eq]
  rintro rfl
  exact h (List.mem_of_mem_take hc)

lemma eq_of_cut_eq {name short : List UInt8} (h : 0 ∉ name) (hshort : short.length < DIRSIZ)
    (hcut : cut name = short) : name = short := by
  rw [cut_eq_take h] at hcut
  have hlen := congrArg List.length hcut
  rw [List.length_take] at hlen
  rw [← hcut, List.take_of_length_le (by omega)]

/-! ## Induction along a plan -/

/-- The checks let entries be looked up and made in directories only. -/
structure Checks.Dirs (c : Checks) : Prop where
  look : ∀ fs d name, c.look fs d name = true → fs.type d = T_DIR
  link : ∀ fs d name, c.link fs d name = true → fs.type d = T_DIR

lemma tryLookup_eq_ok {d r : ℕ} (h : fs.tryLookup c d name = .ok r) :
    d < NINODES ∧ c.look fs d name = true ∧ r = fs.lookup d name := by
  unfold Files.tryLookup at h
  split_ifs at h with hlt hlook
  exact ⟨Nat.lt_of_not_le hlt, hlook, (Except.ok.inj h).symm⟩

/-- A property that is kept when a directory is found, and when one is made, holds at the end of
the path. -/
lemma ensurePath_induction (hc : c.Dirs) {I : List (List UInt8) → ℕ → Files → Prop}
    {Q : List UInt8 → Prop}
    (found : ∀ {done p fs tok}, Tidy fs → fs.type p = T_DIR → I done p fs →
      c.look fs p tok = true → fs.lookup p tok ≠ 0 → I (done ++ [tok]) (fs.lookup p tok) fs)
    (make : ∀ {done p fs tok fs'}, Tidy fs → fs.type p = T_DIR → I done p fs → Q tok →
      c.look fs p tok = true → fs.lookup p tok = 0 → c.link (fs.ialloc T_DIR) p tok = true →
      Made fs fs' p T_DIR tok (entryBytes fs.next dot ++ entryBytes p dotdot) →
      I (done ++ [tok]) fs.next fs')
    (done : List (List UInt8)) {toks : List (List UInt8)} {p p' : ℕ} (ht : Tidy fs)
    (hp : p < fs.next) (hQ : ∀ tok ∈ toks, Q tok) (h : I done p fs)
    (hcall : fs.ensurePath c p toks = .ok (p', fs')) :
    Tidy fs' ∧ p' < fs'.next ∧ I (done ++ toks) p' fs' := by
  induction toks generalizing fs p done with
  | nil =>
    rw [Files.ensurePath, Except.ok.injEq, Prod.mk.injEq] at hcall
    obtain ⟨rfl, rfl⟩ := hcall
    exact ⟨ht, hp, (List.append_nil done).symm ▸ h⟩
  | cons tok toks ih =>
    rw [Files.ensurePath] at hcall
    obtain ⟨v, hv, hcall⟩ := bind_eq_ok.mp hcall
    obtain ⟨-, hlook, rfl⟩ := tryLookup_eq_ok hv
    have hdir := hc.look _ _ _ hlook
    have hQ' : ∀ t ∈ toks, Q t := fun t h => hQ t (List.mem_cons_of_mem _ h)
    rw [← List.singleton_append, ← List.append_assoc]
    split_ifs at hcall with h0
    · obtain ⟨⟨i, fs1⟩, hmk, hcall⟩ := bind_eq_ok.mp hcall
      obtain ⟨hlink, rfl, hmade⟩ := mkdir_made hp.ne hmk
      refine ih _ (hmade.tidy ht hdir (Or.inl ⟨rfl, rfl⟩)) ?_ hQ'
        (make ht hdir h (hQ tok List.mem_cons_self) hlook h0 hlink hmade) hcall
      rw [hmade.next]
      exact Nat.lt_succ_self _
    · exact ih _ ht (ht.lookup_lt hdir h0) hQ' (found ht hdir h hlook h0) hcall

/-- The two parts of adding an argument. -/
lemma addArg_eq_ok {arg : Arg} (h : fs.addArg c arg = .ok fs') :
    ∃ p fs1, fs.ensurePath c ROOTINO (parents (imgpath arg.hostpath)) = .ok (p, fs1) ∧
      match arg.file with
      | .regular reads => fs1.mkfile c p (basename (imgpath arg.hostpath)) reads = .ok fs'
      | _ => fs' = fs1 := by
  obtain ⟨⟨p, fs1⟩, h1, h⟩ := bind_eq_ok.mp h
  refine ⟨p, fs1, h1, ?_⟩
  obtain ⟨hostpath, file, hnul⟩ := arg
  cases file with
  | regular reads => exact h
  | _ => exact (Except.ok.inj h).symm

/-- A property of the arguments so far and of the files is kept along a plan. -/
lemma plan_induction {J : List Arg → Files → Prop} (init : J [] Files.root)
    (step : ∀ {done arg fs fs'}, J done fs → fs.addArg c arg = .ok fs' → J (done ++ [arg]) fs')
    {args : List Arg} (h : plan c args = .ok fs) : J args fs := by
  have hrun : ∀ {done fs0}, J done fs0 → fs0.addArgs c args = .ok fs → J (done ++ args) fs := by
    clear h
    induction args with
    | nil =>
      intro done fs0 hJ h
      rw [Files.addArgs, Except.ok.injEq] at h
      exact (List.append_nil done).symm ▸ h ▸ hJ
    | cons arg args ih =>
      intro done fs0 hJ h
      obtain ⟨fs1, h1, h⟩ := bind_eq_ok.mp h
      have := ih (step hJ h1) h
      rwa [List.append_assoc] at this
  exact hrun init h

end Xv7.Mkfs
