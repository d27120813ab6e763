import Xv7.Fs.Dir

/-!
# Path walks

`skipelem` and `namex` on a disk whose inodes are not in memory yet.  A path walk goes from directory
to directory by the names that the path is made of, cut to `DIRSIZ` bytes.
-/

namespace Xv7

/-! ## The code -/

/-- `skipelem`: the next component of a path and what follows it. -/
def skipelem (path : List UInt8) : Option (List UInt8 × List UInt8) :=
  let path := path.dropWhile (· = slash)
  if path = [] then none
  else some ((path.takeWhile (· ≠ slash)).take DIRSIZ,
    (path.dropWhile (· ≠ slash)).dropWhile (· = slash))

/-- The loop of `namex`: the inode that is reached, and the last component.  `env k` is the
environment of the call number `k` of `dirlookup`. -/
def namexLoop (sb : Superblock) (nameiparent : Bool) : ℕ → (ℕ → ℕ → Env) → ℕ → List UInt8 →
    List UInt8 → Disk → Except FsPanic (Option (ℕ × List UInt8) × Disk)
  | 0, _, _, _, _, d => .ok (none, d)
  | fuel + 1, env, inum, path, name, d =>
    match skipelem path with
    | none => .ok (if nameiparent then none else some (inum, name), d)
    | some (name, path) =>
      let ip := loadInode sb d inum
      if ip.type = 0 then .error .noType
      else if ip.type ≠ T_DIR then .ok (none, d)
      else if nameiparent ∧ path = [] then .ok (some (inum, name), d)
      else do
        let (found, _, d) ← dirlookup (env 0) sb ip name d
        match found with
        | none => .ok (none, d)
        | some (next, _) => namexLoop sb nameiparent fuel (fun k => env (k + 1)) next path name d

/-- `namex`, for a process with the current directory `cwd`. -/
def namex (env : ℕ → ℕ → Env) (sb : Superblock) (cwd : ℕ) (nameiparent : Bool)
    (path : List UInt8) (d : Disk) : Except FsPanic (Option (ℕ × List UInt8) × Disk) :=
  namexLoop sb nameiparent (path.length + 1) env
    (if path.head? = some slash then ROOTINO else cwd) path [] d

/-! ## The components of a path -/

lemma tokens_dropWhile (path : List UInt8) :
    tokens (path.dropWhile (· = slash)) = tokens path := by
  induction path with
  | nil => rfl
  | cons c path ih =>
    by_cases hc : c = slash
    · subst hc
      rw [List.dropWhile_cons_of_pos (by simp), tokens_slash, ih]
    · rw [List.dropWhile_cons_of_neg (by simpa using hc)]

/-- `skipelem` takes the components one by one. -/
lemma skipelem_eq (path : List UInt8) : match skipelem path with
    | none => tokens path = []
    | some (name, rest) => rest.length < path.length ∧
        ∃ tok, tokens path = tok :: tokens rest ∧ name = tok.take DIRSIZ := by
  unfold skipelem
  have htok := tokens_dropWhile path
  have hlen : (path.dropWhile (· = slash)).length ≤ path.length :=
    (List.dropWhile_sublist _).length_le
  have hhead : ∀ c, (path.dropWhile (· = slash)).head? = some c → c ≠ slash := by
    intro c hc heq
    have := List.head?_dropWhile_not (fun c : UInt8 => decide (c = slash)) path
    rw [hc] at this
    simp [heq] at this
  generalize path.dropWhile (· = slash) = p at htok hlen hhead
  simp only
  split_ifs with hp
  · rw [hp] at htok
    exact htok.symm
  · obtain ⟨c, p, rfl⟩ := List.exists_cons_of_ne_nil hp
    have hc := hhead c rfl
    have hsplit := List.takeWhile_append_dropWhile (p := (· ≠ slash)) (l := c :: p)
    have hne : (c :: p).takeWhile (· ≠ slash) ≠ [] := by simp [hc]
    have hnot : slash ∉ (c :: p).takeWhile (· ≠ slash) := fun hmem => by
      simpa using List.mem_takeWhile_imp hmem
    have hrest := tokens_dropWhile ((c :: p).dropWhile (· ≠ slash))
    have hshort : ((c :: p).dropWhile (· ≠ slash)).length < (c :: p).length := by
      have := congrArg List.length hsplit
      rw [List.length_append] at this
      have := List.length_pos_iff.mpr hne
      omega
    have hle : (((c :: p).dropWhile (· ≠ slash)).dropWhile (· = slash)).length ≤
        ((c :: p).dropWhile (· ≠ slash)).length := (List.dropWhile_sublist _).length_le
    refine ⟨by omega, (c :: p).takeWhile (· ≠ slash), ?_, rfl⟩
    rw [← htok, hrest]
    generalize (c :: p).takeWhile (· ≠ slash) = tok at hsplit hne hnot
    rcases hq : (c :: p).dropWhile (· ≠ slash) with _ | ⟨e, q⟩
    · rw [hq, List.append_nil] at hsplit
      rw [← hsplit, tokens_of_notMem hnot, if_neg hne]
      rfl
    · have he : e = slash := by
        have := List.head?_dropWhile_not (fun c : UInt8 => decide (c ≠ slash)) (c :: p)
        rw [hq] at this
        simpa using this
      subst he
      rw [hq] at hsplit
      rw [← hsplit, tokens_append, tokens_of_notMem hnot, if_neg hne, tokens_slash]
      rfl

/-! ## Walks -/

/-- A walk along names, from directory to directory. -/
def walk (dir : ℕ → Prop) [DecidablePred dir] (look : ℕ → List UInt8 → Option ℕ) :
    ℕ → List (List UInt8) → Option ℕ
  | i, [] => some i
  | i, name :: names => if dir i then (look i name).bind fun j => walk dir look j names else none

/-- The names of a path as the kernel looks them up. -/
def components (path : List UInt8) : List (List UInt8) := (tokens path).map (List.take DIRSIZ)

end Xv7
