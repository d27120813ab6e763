import Xv7.Sys.Cache

/-!
# Directories and paths during a call

What `dirlookup`, `dirlink`, `namex` and `namei` do to the references that a call has.  A path walk
that returns has found what the directories say, although it may have freed inodes on its way: where
it comes to a freed inode, it panics.
-/

namespace Xv7.Sys

open Icache (Slot)
open Prog

/-! ## What a path names -/

namespace Files

/-- The inode is a directory. -/
abbrev IsDir (fs : Files) (n : ℕ) : Prop := (fs.node n).type = T_DIR

/-- The inode that a directory has under a name. -/
def look (fs : Files) (n : ℕ) (name : Name) : Option ℕ :=
  (SlotMap.find name (fs.dir n)).map fun r => r.1.inum

/-- Where a walk along names ends: with `nameiparent`, one name before the end. -/
def target (fs : Files) (nameiparent : Bool) : ℕ → List Name → Name → Option (ℕ × Name)
  | n, [], name => if nameiparent then none else some (n, name)
  | n, name :: names, _ =>
    if ¬ fs.IsDir n then none
    else if nameiparent ∧ names = [] then some (n, name)
    else (fs.look n name).bind fun m => target fs nameiparent m names name

/-- Only the types and the directories matter for a walk. -/
lemma target_congr {fs fs' : Files} (htype : ∀ n, (fs'.node n).type = (fs.node n).type)
    (hdir : fs'.dir = fs.dir) {nameiparent : Bool} {n : ℕ} {names : List Name} {name : Name} :
    fs'.target nameiparent n names name = fs.target nameiparent n names name := by
  induction names generalizing n name with
  | nil => rfl
  | cons name' names ih => simp only [target, IsDir, htype, look, hdir, ih]

end Files

namespace State

/-- Where a path starts. -/
def start (s : State) (c : Caller) (path : List UInt8) : ℕ :=
  if path.head? = some slash then ROOTINO else (s.inode (s.cwd c.pid)).inum

/-- The directory of the last name of a path, and the name. -/
def parentOf (s : State) (c : Caller) (path : List UInt8) : Option (ℕ × Name) :=
  s.fs.target true (s.start c path) (components path) []

end State

/-- `skipelem` and the components of a path. -/
lemma skipelem_components (path : List UInt8) : match skipelem path with
    | none => components path = []
    | some (name, rest) => components path = name :: components rest ∧
        rest.length < path.length ∧ (rest = [] ↔ components rest = []) := by
  have h := skipelem_eq path
  rcases hs : skipelem path with _ | ⟨name, rest⟩
  · rw [hs] at h
    simp only at h ⊢
    rw [components, h]
    rfl
  · rw [hs] at h
    obtain ⟨hlen, tok, htok, rfl⟩ := h
    refine ⟨by rw [components, htok]; rfl, hlen, fun h => by rw [h]; rfl, fun h => ?_⟩
    by_contra hne
    -- the rest does not start with a slash
    have hskip := skipelem_eq rest
    have hrest : rest.dropWhile (· = slash) = rest := by
      simp only [skipelem] at hs
      split_ifs at hs
      simp only [Option.some.injEq, Prod.mk.injEq] at hs
      rw [← hs.2, List.dropWhile_idempotent]
    have hsome : skipelem rest ≠ none := by
      simp [skipelem, hrest, hne]
    obtain ⟨⟨name', rest'⟩, hs'⟩ := Option.ne_none_iff_exists'.mp hsome
    rw [hs'] at hskip
    obtain ⟨-, tok', htok', -⟩ := hskip
    rw [components, htok'] at h
    exact absurd h (by simp)

section

variable {s₀ s : State} {B : Slot → ℕ} {R : Multiset Ref} {L : Finset Slot} {i d : Slot} {n : ℕ}
  {name : Name}

lemma Spare.of_cons {x : Ref} {m : ℕ} (h : Spare s₀ B (x ::ₘ R) m) : Spare s₀ B R m :=
  ⟨h.1, fun y hy => h.2 y (Multiset.mem_cons_of_mem hy)⟩

/-! ## Directories -/

/-- What `dirlookup` has found in the directory. -/
def Looked (s₀ : State) (B : Slot → ℕ) (R : Multiset Ref) (L : Finset Slot) (dir : Dir) (name : Name) :
    Option (Slot × ℕ) → State → Prop
  | none, s => SlotMap.find name dir = none ∧ Busy s₀ B R L s
  | some (i, off), s => ∃ e, SlotMap.find name dir = some (e, off) ∧ Busy s₀ B ((i, e.inum) ::ₘ R) L s

/-- `dirlookup` in a locked directory. -/
lemma Busy.dirlookup_or {E : Stop → Prop} (h : Busy s₀ B R L s) (hd : (d, n) ∈ R) (hL : d ∈ L)
    (hdir : s.fs.IsDir n) (name : Name) (hE : (∀ j, 0 < B j + held R j) → E (.panic .iget)) :
    Ends (dirlookup d name) s (fun r s' => s'.fs = s.fs ∧ Looked s₀ B R L (s.fs.dir n) name r s') E := by
  have hn : (s.inode d).inum = n := h.inum _ hd
  unfold Sys.dirlookup
  simp only [Sys.inode, ends_bind, ends_get, ends_pure]
  rw [if_neg (by rw [h.node_eq hd hL]; exact not_not.mpr hdir)]
  simp only [ends_bind, ends_get, hn]
  split
  case h_1 e off hf =>
    simp only [ends_bind, ends_pure]
    refine (h.iget_or e.inum hE).mono ?_
    rintro i s' ⟨hs', hfs⟩
    exact ⟨hfs, e, hf, hs'⟩
  case h_2 hf => exact ⟨rfl, hf, h⟩

lemma Busy.dirlookup (h : Busy s₀ B R L s) (hd : (d, n) ∈ R) (hL : d ∈ L) (hdir : s.fs.IsDir n)
    (name : Name) : Ends (Sys.dirlookup d name) s
      (fun r s' => s'.fs = s.fs ∧ Looked s₀ B R L (s.fs.dir n) name r s') Proceeds :=
  h.dirlookup_or hd hL hdir name fun _ => Stop.noConfusion

/-- `dirlookup` panics if the inode is not a directory. -/
lemma Busy.dirlookup_of_not {Q : Option (Slot × ℕ) → State → Prop} (h : Busy s₀ B R L s)
    (hd : (d, n) ∈ R) (hL : d ∈ L) (hdir : ¬ s.fs.IsDir n) (name : Name) :
    Ends (Sys.dirlookup d name) s Q Proceeds := by
  unfold Sys.dirlookup
  simp only [Sys.inode, ends_bind, ends_get, ends_pure]
  rw [if_pos (by rw [h.node_eq hd hL]; exact hdir)]
  exact Stop.noConfusion

/-- `dirlink` in a locked directory, where no locked inode has the name already. -/
lemma Busy.dirlink (h : Busy s₀ B R L s) (hd : (d, n) ∈ R) (hL : d ∈ L) (hdir : s.fs.IsDir n)
    (name : Name) (inum : ℕ) : Ends (dirlink d name inum) s (fun r s' => Busy s₀ B R L s' ∧
      (r = 0 ∧ SlotMap.find name (s.fs.dir n) = none ∧
          s'.fs = s.fs.setDir n (fun m => SlotMap.put m name (s.fs.entry inum)) ∨
        r = -1 ∧ (∃ e off, SlotMap.find name (s.fs.dir n) = some (e, off) ∧
          ∀ x ∈ R, x.1 ∈ L → x.2 ≠ e.inum) ∧ Files.Swept (Spare s₀ B R) s.fs s'.fs))
      fun e => e = .deadlock → ∃ e off, SlotMap.find name (s.fs.dir n) = some (e, off) ∧
        ∃ x ∈ R, x.1 ∈ L ∧ x.2 = e.inum := by
  unfold Sys.dirlink
  refine (h.dirlookup hd hL hdir name).imp (fun r s1 hr => ?_) (fun e he h => absurd h he) |>.bind
    fun _ _ h => h
  obtain ⟨hfs1, hr⟩ := hr
  rcases r with _ | ⟨i, off⟩
  · obtain ⟨hnone, h1⟩ := hr
    have hn1 : (s1.inode d).inum = n := h1.inum _ hd
    simp only [Sys.inode, ends_bind, ends_get, ends_pure, ends_modify, hn1, hfs1]
    have hset := h1.setDir (n := n) fun m => SlotMap.put m name (s.fs.entry inum)
    rw [hfs1] at hset
    exact ⟨hset, Or.inl ⟨trivial, hnone, trivial⟩⟩
  · obtain ⟨e, hf, h1⟩ := hr
    have hmem : (i, e.inum) ∈ (i, e.inum) ::ₘ R := Multiset.mem_cons_self _ _
    simp only [ends_bind, ends_pure]
    by_cases hi : i ∈ L
    · -- the inode that was found is locked
      have hstop : Sys.iput i s1 = .error .deadlock := by
        refine Ends.eq_error ?_
        simp only [Sys.iput, acquiresleep, ends_bind, ends_get]
        rw [h1.locked, if_pos hi]
        rfl
      obtain ⟨k, hk⟩ := exists_of_held_pos (h.owned i hi)
      have hk1 : (s1.inode i).inum = k := h1.inum (i, k) (Multiset.mem_cons_of_mem hk)
      have he1 : (s1.inode i).inum = e.inum := h1.inum _ hmem
      exact .of_stop hstop fun _ => ⟨e, off, hf, (i, k), hk, hi, hk1.symm.trans he1⟩
    · refine (h1.iput_swept hi).mono ?_
      rintro _ s2 ⟨h2, hsw⟩
      refine ⟨h2, Or.inr ⟨trivial, ⟨e, off, hf, ?_⟩, ?_⟩⟩
      · intro x hx hxL heq
        have hxi : x.1 = i := h1.slot_eq (Multiset.mem_cons_of_mem hx) hmem heq
        exact hi (hxi ▸ hxL)
      · rwa [hfs1] at hsw

/-! ## Paths -/

/-- How a path walk has ended: `t` is what the directories say. -/
def Landed (s₀ : State) (B : Slot → ℕ) (R : Multiset Ref) (nameiparent : Bool)
    (t : Option (ℕ × Name)) : Option (Slot × Name) → State → Prop
  | none, s => t = none ∧ Busy s₀ B R ∅ s
  | some (i, name), s => ∃ n, t = some (n, name) ∧ Busy s₀ B ((i, n) ::ₘ R) ∅ s ∧
      (nameiparent = true → s.fs.IsDir n ∧ (s.inode i).valid = true)

/-- Why a path walk through the inodes in `P` stops: there is no slot for one more inode, or an inode
has been freed. -/
structure Stops (s₀ : State) (B : Slot → ℕ) (R : Multiset Ref) (fs : Files) (P : ℕ → Prop)
    (E : Stop → Prop) : Prop where
  look : ∀ m name k, P m → fs.IsDir m → fs.look m name = some k → P k
  iget : ∀ i m, (∀ j, 0 < B j + held ((i, m) ::ₘ R) j) → E (.panic .iget)
  noType : ∀ m fs', P m → Files.Swept (Spare s₀ B R) fs fs' → (fs'.node m).type = 0 → E (.panic .noType)

/-- The loop of `namex` follows the names through the directories. -/
lemma Busy.namexLoop {fs : Files} {nameiparent : Bool} {fuel : ℕ} {path : List UInt8} {P : ℕ → Prop}
    {E : Stop → Prop} (hstop : Stops s₀ B R fs P E) (hP : P n)
    (h : Busy s₀ B ((i, n) ::ₘ R) ∅ s) (hsw : Files.Swept (Spare s₀ B R) fs s.fs)
    (hfuel : path.length < fuel) :
    Ends (namexLoop nameiparent fuel i path name) s (fun r s' =>
      Files.Swept (Spare s₀ B R) fs s'.fs ∧
      Landed s₀ B R nameiparent (fs.target nameiparent n (components path) name) r s') E := by
  induction fuel generalizing i n s path name with
  | zero => omega
  | succ fuel ih =>
    have hmem : (i, n) ∈ (i, n) ::ₘ R := Multiset.mem_cons_self _ _
    have hskip := skipelem_components path
    rw [Sys.namexLoop]
    rcases hs : skipelem path with _ | ⟨name1, rest⟩
    · rw [hs] at hskip
      simp only at hskip
      rw [hskip, Files.target]
      cases nameiparent with
      | false =>
        simp only [Bool.false_eq_true, if_false, ends_pure]
        exact ⟨hsw, n, rfl, h, by simp⟩
      | true =>
        simp only [if_true, ends_bind, ends_pure]
        refine (h.iput_swept (Finset.notMem_empty _)).mono ?_
        rintro _ s' ⟨hs', hsw'⟩
        exact ⟨hsw.trans hsw', rfl, hs'⟩
    · rw [hs] at hskip
      obtain ⟨hcomp, hlen, hnil⟩ := hskip
      rw [hcomp, Files.target]
      refine (h.ilock_or hmem (Finset.notMem_empty _) (hstop.noType n s.fs hP hsw)).bind ?_
      rintro _ s1 ⟨h1, hfs1⟩
      have hL : i ∈ insert i (∅ : Finset Slot) := Finset.mem_insert_self _ _
      have herase : (insert i (∅ : Finset Slot)).erase i = ∅ := by simp
      rw [← hfs1] at hsw
      -- the inode is in use, so that nothing has happened to it
      obtain ⟨hnode, hdir⟩ := hsw.same (h1.type_ne_zero hmem hL)
      have htype : (s1.inode i).node.type = (fs.node n).type := by rw [h1.node_eq hmem hL, hnode]
      simp only [Sys.inode, ends_bind, ends_get, ends_pure, htype]
      by_cases hd : fs.IsDir n
      · rw [if_neg (not_not.mpr hd), if_neg (not_not.mpr hd)]
        have hlast' : (nameiparent = true ∧ components rest = []) ↔
            nameiparent = true ∧ rest = [] := and_congr_right fun _ => hnil.symm
        have hd1 : s1.fs.IsDir n := by rwa [Files.IsDir, hnode]
        by_cases hlast : nameiparent = true ∧ rest = []
        · rw [if_pos hlast, if_pos (hlast'.mpr hlast)]
          simp only [ends_bind, ends_pure]
          refine (h1.iunlock hL).mono ?_
          rintro _ s2 ⟨h2, hfs2, hin2⟩
          refine ⟨by rwa [hfs2], n, rfl, ?_, ?_⟩
          · rwa [herase] at h2
          · exact fun _ => ⟨by rwa [hfs2], by rw [hin2]; exact h1.valid i hL⟩
        · rw [if_neg hlast, if_neg (mt hlast'.mp hlast)]
          refine (h1.dirlookup_or hmem hL hd1 name1 (hstop.iget i n)).bind ?_
          rintro r s2 ⟨hfs2, hr⟩
          rw [← hfs2] at hsw
          rcases r with _ | ⟨j, off⟩
          · obtain ⟨hnone, h2⟩ := hr
            have hlook : fs.look n name1 = none := by
              rw [Files.look, ← hdir, hnone]
              rfl
            simp only [ends_bind, ends_pure, hlook]
            refine (h2.iunlockput_swept hL).mono ?_
            rintro _ s3 ⟨h3, hsw3⟩
            refine ⟨hsw.trans hsw3, rfl, ?_⟩
            rwa [herase] at h3
          · obtain ⟨e, hf, h2⟩ := hr
            have hlook : fs.look n name1 = some e.inum := by
              rw [Files.look, ← hdir, hf]
              rfl
            rw [Multiset.cons_swap] at h2
            simp only [hlook, Option.bind_some]
            refine (h2.iunlockput_swept hL).bind ?_
            rintro _ s3 ⟨h3, hsw3⟩
            rw [herase] at h3
            exact ih (hstop.look n name1 _ hP hd hlook) h3
              (hsw.trans (hsw3.mono fun _ => Spare.of_cons)) (by omega)
      · rw [if_pos hd, if_pos hd]
        simp only [ends_bind, ends_pure]
        refine (h1.iunlockput_swept hL).mono ?_
        rintro _ s3 ⟨h3, hsw3⟩
        refine ⟨hsw.trans hsw3, rfl, ?_⟩
        rwa [herase] at h3

/-- `namex`, after inodes were freed since `fs`. -/
lemma Busy.namex_or {c : Caller} {fs : Files} {P : ℕ → Prop} {E : Stop → Prop} {path : List UInt8}
    (hstop : Stops s₀ B R fs P E) (hP : P (s₀.start c path)) (h : Busy s₀ B R ∅ s)
    (hsw : Files.Swept (Spare s₀ B R) fs s.fs) (hcwd : 0 < B (s₀.cwd c.pid)) (nameiparent : Bool) :
    Ends (namex c path nameiparent) s (fun r s' => Files.Swept (Spare s₀ B R) fs s'.fs ∧
      Landed s₀ B R nameiparent
        (fs.target nameiparent (s₀.start c path) (components path) []) r s') E := by
  have hloop : ∀ i n s', Busy s₀ B ((i, n) ::ₘ R) ∅ s' → s'.fs = s.fs → n = s₀.start c path →
      Ends (Sys.namexLoop nameiparent (path.length + 1) i path []) s' (fun r s'' =>
        Files.Swept (Spare s₀ B R) fs s''.fs ∧ Landed s₀ B R nameiparent
          (fs.target nameiparent (s₀.start c path) (components path) []) r s'') E := by
    rintro i n s' h' hfs rfl
    exact h'.namexLoop hstop hP (hfs ▸ hsw) (Nat.lt_succ_self _)
  unfold Sys.namex
  by_cases hhead : path.head? = some slash
  · rw [if_pos hhead]
    refine (h.iget_or ROOTINO fun hfull => hstop.iget 0 0 fun j => ?_).bind ?_
    · rw [held_cons]
      exact (hfull j).trans_le (Nat.add_le_add_left (Nat.le_add_right _ _) _)
    rintro i s' ⟨h', hfs⟩
    refine hloop i _ s' h' hfs ?_
    rw [State.start, if_pos hhead]
  · rw [if_neg hhead]
    simp only [ends_bind, ends_get, h.same.cwd]
    refine (h.idup hcwd).mono ?_
    rintro i s' ⟨hi, h', hfs⟩
    subst hi
    exact hloop _ _ s' h' hfs (by rw [State.start, if_neg hhead])

lemma Busy.namex_of_swept {c : Caller} {fs : Files} (h : Busy s₀ B R ∅ s)
    (hsw : Files.Swept (Spare s₀ B R) fs s.fs) (hcwd : 0 < B (s₀.cwd c.pid))
    (path : List UInt8) (nameiparent : Bool) :
    Ends (Sys.namex c path nameiparent) s (fun r s' => Files.Swept (Spare s₀ B R) fs s'.fs ∧
      Landed s₀ B R nameiparent
        (fs.target nameiparent (s₀.start c path) (components path) []) r s') Proceeds :=
  h.namex_or ⟨fun _ _ _ _ _ _ => trivial, fun _ _ _ => Stop.noConfusion,
    fun _ _ _ _ _ => Stop.noConfusion⟩ trivial hsw hcwd nameiparent

/-- `namex`. -/
lemma Busy.namex {c : Caller} (h : Busy s₀ B R ∅ s) (hcwd : 0 < B (s₀.cwd c.pid))
    (path : List UInt8) (nameiparent : Bool) :
    Ends (namex c path nameiparent) s (fun r s' => Files.Swept (Spare s₀ B R) s.fs s'.fs ∧
      Landed s₀ B R nameiparent
        (s.fs.target nameiparent (s₀.start c path) (components path) []) r s') Proceeds :=
  h.namex_of_swept .refl hcwd path nameiparent

/-- How the loop of `namei` has ended. -/
def Chased (s₀ : State) (B : Slot → ℕ) (R : Multiset Ref) : Chase → State → Prop
  | .lost, s => Busy s₀ B R ∅ s
  | .deep i, s => ∃ n, Busy s₀ B ((i, n) ::ₘ R) ∅ s
  | .found i, s => ∃ n, Busy s₀ B ((i, n) ::ₘ R) ∅ s

/-- `nameifollow` keeps the reference to the link. -/
lemma Busy.nameifollow {c : Caller} (h : Busy s₀ B R ∅ s) (hcwd : 0 < B (s₀.cwd c.pid)) (i : Slot) :
    Ends (nameifollow c i) s (fun r s' => Files.Swept (Spare s₀ B R) s.fs s'.fs ∧ match r with
      | none => Busy s₀ B R ∅ s'
      | some j => ∃ n, Busy s₀ B ((j, n) ::ₘ R) ∅ s') Proceeds := by
  unfold Sys.nameifollow
  simp only [Sys.inode, ends_bind, ends_get, ends_pure]
  split_ifs
  · exact Stop.noConfusion
  · refine (h.namex hcwd _ false).bind ?_
    rintro r s' ⟨hsw, hr⟩
    refine ⟨hsw, ?_⟩
    rcases r with _ | ⟨j, name⟩
    · exact hr.2
    · obtain ⟨n, -, h', -⟩ := hr
      exact ⟨n, h'⟩

/-- The loop of `namei`. -/
lemma Busy.chase {c : Caller} (left : ℕ) (h : Busy s₀ B ((i, n) ::ₘ R) ∅ s)
    (hcwd : 0 < B (s₀.cwd c.pid)) : Ends (chase c left i) s (fun r s' =>
      Files.Swept (Spare s₀ B R) s.fs s'.fs ∧ Chased s₀ B R r s') Proceeds := by
  induction left using Nat.strong_induction_on generalizing i n s with
  | _ left ih =>
    unfold Sys.chase
    simp only [Sys.inode, ends_bind, ends_get, ends_pure]
    split_ifs
    · refine (h.nameifollow hcwd i).bind ?_
      rintro r s1 ⟨hsw1, hr⟩
      have hsw1 := hsw1.mono fun _ => Spare.of_cons
      rcases r with _ | j
      · refine (hr.iput_swept (Finset.notMem_empty _)).bind ?_
        rintro _ s2 ⟨h2, hsw2⟩
        exact ⟨hsw1.trans hsw2, h2⟩
      · obtain ⟨m, h1⟩ := hr
        rw [Multiset.cons_swap] at h1
        refine (h1.iput_swept (Finset.notMem_empty _)).bind ?_
        rintro _ s2 ⟨h2, hsw2⟩
        have hsw := hsw1.trans (hsw2.mono fun _ => Spare.of_cons)
        cases left with
        | zero => exact ⟨hsw, m, h2⟩
        | succ left =>
          refine (ih left (Nat.lt_succ_self left) h2).mono ?_
          rintro r s3 ⟨hsw3, h3⟩
          exact ⟨hsw.trans hsw3, h3⟩
    · exact ⟨Relation.ReflTransGen.refl, n, h⟩

/-- `namei` up to its `return`. -/
lemma Busy.nameiChase {c : Caller} (h : Busy s₀ B R ∅ s) (hcwd : 0 < B (s₀.cwd c.pid))
    (path : List UInt8) : Ends (nameiChase c path) s (fun r s' =>
      Files.Swept (Spare s₀ B R) s.fs s'.fs ∧ Chased s₀ B R r s') Proceeds := by
  unfold Sys.nameiChase
  refine (h.namex hcwd path false).bind ?_
  rintro r s1 ⟨hsw1, hr⟩
  rcases r with _ | ⟨i, name⟩
  · simp only
    split_ifs
    · exact Stop.noConfusion
    · exact ⟨hsw1, hr.2⟩
  · obtain ⟨n, -, h1, -⟩ := hr
    refine (h1.chase 10 hcwd).mono ?_
    rintro r s2 ⟨hsw2, h2⟩
    exact ⟨hsw1.trans hsw2, h2⟩

/-- A walk by `namei` follows more than ten links. -/
def State.Deep (s : State) (c : Caller) (path : List UInt8) : Prop :=
  ∃ i s', Sys.nameiChase c path s = .ok (.deep i, s')

/-- `namei`: after more than ten links, it keeps the reference to the inode it has come to. -/
lemma Busy.namei {c : Caller} (h : Busy s₀ B R ∅ s) (hcwd : 0 < B (s₀.cwd c.pid))
    (path : List UInt8) : Ends (namei c path) s (fun r s' =>
      Files.Swept (Spare s₀ B R) s.fs s'.fs ∧ match r with
        | none => ¬ s.Deep c path ∧ Busy s₀ B R ∅ s' ∨
            s.Deep c path ∧ ∃ i n, Busy s₀ B ((i, n) ::ₘ R) ∅ s'
        | some i => ¬ s.Deep c path ∧ ∃ n, Busy s₀ B ((i, n) ::ₘ R) ∅ s') Proceeds := by
  have hends := h.nameiChase hcwd path
  unfold Sys.namei
  rw [ends_bind]
  refine ends_iff.mpr ⟨fun r s1 hr => ?_, fun e he => hends.of_error he⟩
  obtain ⟨hsw1, h1⟩ := hends.of_ok hr
  have hdeep : s.Deep c path ↔ ∃ i, r = .deep i := by
    constructor
    · rintro ⟨i, s', hs'⟩
      rw [hr, Except.ok.injEq, Prod.mk.injEq] at hs'
      exact ⟨i, hs'.1⟩
    · rintro ⟨i, rfl⟩
      exact ⟨i, s1, hr⟩
  rw [hdeep]
  cases r with
  | lost => exact ⟨hsw1, Or.inl ⟨by simp, h1⟩⟩
  | deep i => exact ⟨hsw1, Or.inr ⟨⟨i, rfl⟩, i, h1⟩⟩
  | found i => exact ⟨hsw1, by simp, h1⟩

end

end Xv7.Sys
