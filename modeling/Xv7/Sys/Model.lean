import Xv7.Fs.Namex
import Xv7.Icache.Model
import Xv7.Lib.Prog
import Xv7.Proc.Table

/-!
# The system calls of the file system

`sys_open`, `sys_link`, `sys_unlink`, `sys_mkdir`, `sys_mknod`, `sys_chdir`, `sys_symlink`,
`sys_getcwd` and `sys_close`, down to the references and the locks of the inode cache.  A call runs
as a whole, for one process at a time; a call that panics, that waits for a lock it holds itself or
that follows a null pointer into user memory does not return.  A directory is the list of slots that
`dirlookup` and `dirlink` work on; the contents of files are not part of the state.
-/

namespace Xv7.Sys

open Icache (NINODE Slot)
open Ptable (NPROC)

/-! ## Files on the disk -/

/-- `NOFILE`. -/
abbrev NOFILE : ℕ := 16

/-- `NFILE`. -/
abbrev NFILE : ℕ := 100

/-- The number of bytes of `ip->addrs`, where the text of a symbolic link is. -/
abbrev ADDRSIZE : ℕ := 44

/-- A name in a directory. -/
abbrev Name := List UInt8

/-- The name `.`. -/
abbrev dot : Name := [46]

/-- The name `..`. -/
abbrev dotdot : Name := [46, 46]

/-- What a directory entry names. -/
structure Entry where
  inum : ℕ
  /-- Which allocation of the inode the entry was made for; the code has no such field. -/
  gen : ℕ
  deriving DecidableEq, Repr

/-- The slots of a directory. -/
abbrev Dir := List (Option (Name × Entry))

/-- The fields of an inode; type 0 is a free inode. -/
structure Node where
  type : ℕ
  major : BitVec 16
  minor : BitVec 16
  /-- A `short`. -/
  nlink : BitVec 16
  /-- The first `size` bytes of `addrs`, in a symbolic link. -/
  text : List UInt8
  deriving DecidableEq, Repr

/-- The inodes and directories on the disk, by inode number. -/
@[ext] structure Files where
  node : ℕ → Node
  dir : ℕ → Dir
  /-- How often the inode was allocated. -/
  gen : ℕ → ℕ

namespace Files

/-- Change an inode. -/
def setNode (fs : Files) (n : ℕ) (f : Node → Node) : Files :=
  { fs with node := Function.update fs.node n (f (fs.node n)) }

/-- Change a directory. -/
def setDir (fs : Files) (n : ℕ) (f : Dir → Dir) : Files :=
  { fs with dir := Function.update fs.dir n (f (fs.dir n)) }

/-- The entry that `dirlink` writes for an inode. -/
def entry (fs : Files) (n : ℕ) : Entry := ⟨n, fs.gen n⟩

/-- `ialloc` clears the inode and gives it a type. -/
def alloc (fs : Files) (n type : ℕ) : Files :=
  { node := Function.update fs.node n ⟨type, 0, 0, 0, []⟩
    dir := Function.update fs.dir n []
    gen := Function.update fs.gen n (fs.gen n + 1) }

end Files

/-! ## The state of the kernel -/

/-- `struct inode`. -/
structure Inode where
  inum : ℕ
  ref : ℕ
  valid : Bool
  /-- The copy of the fields; without `valid` it is what the slot held last. -/
  node : Node
  deriving DecidableEq, Repr

/-- `FD_NONE`, `FD_PIPE` and `FD_INODE`. -/
inductive FdType where
  | none
  | pipe
  | inode
  deriving DecidableEq, Repr

/-- `struct file`. -/
structure File where
  ref : ℕ
  type : FdType
  ip : Slot
  deriving DecidableEq, Repr

/-- The state of the kernel between two steps of a call. -/
@[ext] structure State where
  fs : Files
  /-- `sb.ninodes`. -/
  ninodes : ℕ
  /-- `icache.inode`. -/
  inode : Slot → Inode
  /-- The inode locks that are held. -/
  locked : Finset Slot
  /-- `begin_op` without its `end_op`. -/
  ops : ℕ
  ftable : Fin NFILE → File
  cwd : Fin NPROC → Slot
  ofile : Fin NPROC → Fin NOFILE → Option (Fin NFILE)

/-- The panics of the calls. -/
inductive Panic where
  | ilock
  | noType
  | iunlock
  | iget
  | ialloc
  | dirlookup
  | unlinkNlink
  | createDots
  | createDirlink
  | fileclose
  deriving DecidableEq, Repr

/-- Why a call does not return. -/
inductive Stop where
  | panic (p : Panic)
  /-- It waits for an inode lock that it holds. -/
  | deadlock
  /-- It takes an inode at address 0 for a symbolic link, or a link that is too long. -/
  | wild
  deriving DecidableEq, Repr

/-- A piece of kernel code. -/
abbrev Kernel (α : Type) : Type := StateT State (Except Stop) α

/-- The process that makes the call. -/
structure Caller where
  pid : Fin NPROC
  /-- What its memory holds at the address of `ip->type` for `ip == 0`. -/
  nullType : ℕ

namespace State

/-- Change a slot of the inode cache. -/
def modify (s : State) (ip : Slot) (f : Inode → Inode) : State :=
  { s with inode := Function.update s.inode ip (f (s.inode ip)) }

/-- The slot that holds the inode. -/
def cached (s : State) (n : ℕ) : Option Slot :=
  (List.finRange NINODE).find? fun i => 0 < (s.inode i).ref ∧ (s.inode i).inum = n

/-- The first slot that nobody uses. -/
def empty (s : State) : Option Slot := (List.finRange NINODE).find? fun i => (s.inode i).ref = 0

/-- The inode that `ialloc` takes. -/
def freeInode (s : State) : Option ℕ :=
  (List.range s.ninodes).find? fun n => 1 ≤ n ∧ (s.fs.node n).type = 0

/-- `iupdate`. -/
def iupdate (s : State) (ip : Slot) : State :=
  { s with fs := s.fs.setNode (s.inode ip).inum fun _ => (s.inode ip).node }

/-- Change an open file. -/
def setFile (s : State) (f : Fin NFILE) (file : File) : State :=
  { s with ftable := Function.update s.ftable f file }

/-- Change a descriptor. -/
def setFd (s : State) (p : Fin NPROC) (fd : Fin NOFILE) (f : Option (Fin NFILE)) : State :=
  { s with ofile := Function.update s.ofile p (Function.update (s.ofile p) fd f) }

/-- The first file that is not open. -/
def freeFile (s : State) : Option (Fin NFILE) :=
  (List.finRange NFILE).find? fun f => (s.ftable f).ref = 0

/-- The first descriptor that is not in use. -/
def freeFd (s : State) (p : Fin NPROC) : Option (Fin NOFILE) :=
  (List.finRange NOFILE).find? fun fd => (s.ofile p fd).isNone

end State

/-! ## The inode cache -/

/-- The fields of `*ip`. -/
def inode (ip : Slot) : Kernel Inode := return (← get).inode ip

def beginOp : Kernel Unit := modify fun s => { s with ops := s.ops + 1 }

def endOp : Kernel Unit := modify fun s => { s with ops := s.ops - 1 }

def acquiresleep (ip : Slot) : Kernel Unit := do
  if ip ∈ (← get).locked then throw .deadlock
  else modify fun s => { s with locked := insert ip s.locked }

def releasesleep (ip : Slot) : Kernel Unit :=
  modify fun s => { s with locked := s.locked.erase ip }

/-- Assign to fields of `*ip`. -/
def assign (ip : Slot) (f : Node → Node) : Kernel Unit :=
  modify fun s => s.modify ip fun i => { i with node := f i.node }

def iupdate (ip : Slot) : Kernel Unit := modify fun s => s.iupdate ip

def iget (n : ℕ) : Kernel Slot := do
  match (← get).cached n with
  | some ip =>
    modify fun s => s.modify ip fun i => { i with ref := i.ref + 1 }
    return ip
  | none =>
    match (← get).empty with
    | some ip =>
      modify fun s => s.modify ip fun i => { i with inum := n, ref := 1, valid := false }
      return ip
    | none => throw (.panic .iget)

def idup (ip : Slot) : Kernel Slot := do
  modify fun s => s.modify ip fun i => { i with ref := i.ref + 1 }
  return ip

def ilock (ip : Slot) : Kernel Unit := do
  if (← inode ip).ref < 1 then throw (.panic .ilock)
  acquiresleep ip
  if (← inode ip).valid = false then
    modify fun s => s.modify ip fun i => { i with node := s.fs.node i.inum, valid := true }
    if (← inode ip).node.type = 0 then throw (.panic .noType)

def iunlock (ip : Slot) : Kernel Unit := do
  if ip ∉ (← get).locked ∨ (← inode ip).ref < 1 then throw (.panic .iunlock)
  releasesleep ip

/-- `itrunc`: nothing is left of a directory, or of the text of a link. -/
def itrunc (ip : Slot) : Kernel Unit := do
  let n := (← inode ip).inum
  modify fun s => { s with fs := s.fs.setDir n fun _ => [] }
  assign ip fun nd => { nd with text := [] }
  iupdate ip

def iput (ip : Slot) : Kernel Unit := do
  acquiresleep ip
  let i ← inode ip
  if i.valid ∧ i.node.nlink = 0 ∧ i.ref = 1 then
    itrunc ip
    assign ip fun nd => { nd with type := 0 }
    iupdate ip
    modify fun s => s.modify ip fun i => { i with valid := false }
  releasesleep ip
  modify fun s => s.modify ip fun i => { i with ref := i.ref - 1 }

def iunlockput (ip : Slot) : Kernel Unit := do
  iunlock ip
  iput ip

def ialloc (type : ℕ) : Kernel Slot := do
  match (← get).freeInode with
  | some n =>
    modify fun s => { s with fs := s.fs.alloc n type }
    iget n
  | none => throw (.panic .ialloc)

/-! ## Directories and paths -/

/-- `dirlookup`: the inode, and the slot of the entry. -/
def dirlookup (dp : Slot) (name : Name) : Kernel (Option (Slot × ℕ)) := do
  let i ← inode dp
  if i.node.type ≠ T_DIR then throw (.panic .dirlookup)
  match SlotMap.find name ((← get).fs.dir i.inum) with
  | some (e, off) =>
    let ip ← iget e.inum
    return some (ip, off)
  | none => return none

def dirlink (dp : Slot) (name : Name) (inum : ℕ) : Kernel ℤ := do
  match ← dirlookup dp name with
  | some (ip, _) =>
    iput ip
    return -1
  | none =>
    let n := (← inode dp).inum
    modify fun s => { s with fs := s.fs.setDir n fun m => SlotMap.put m name (s.fs.entry inum) }
    return 0

/-- The loop of `namex`. -/
def namexLoop (nameiparent : Bool) : ℕ → Slot → List UInt8 → Name → Kernel (Option (Slot × Name))
  | 0, _, _, _ => return none
  | fuel + 1, ip, path, name => do
    match skipelem path with
    | none =>
      if nameiparent then
        iput ip
        return none
      else return some (ip, name)
    | some (name, path) =>
      ilock ip
      if (← inode ip).node.type ≠ T_DIR then
        iunlockput ip
        return none
      else if nameiparent ∧ path = [] then
        iunlock ip
        return some (ip, name)
      else
        match ← dirlookup ip name with
        | none =>
          iunlockput ip
          return none
        | some (next, _) =>
          iunlockput ip
          namexLoop nameiparent fuel next path name

def namex (c : Caller) (path : List UInt8) (nameiparent : Bool) :
    Kernel (Option (Slot × Name)) := do
  let ip ← if path.head? = some slash then iget ROOTINO else idup ((← get).cwd c.pid)
  namexLoop nameiparent (path.length + 1) ip path []

def nameifollow (c : Caller) (ip : Slot) : Kernel (Option Slot) := do
  let text := (← inode ip).node.text
  if ADDRSIZE < text.length then throw .wild
  return (← namex c text false).map Prod.fst

/-- How the loop of `namei` ends. -/
inductive Chase where
  | lost
  /-- `depth > 10`. -/
  | deep (ip : Slot)
  | found (ip : Slot)

/-- The loop of `namei`; `left` is `10 - depth`. -/
def chase (c : Caller) (left : ℕ) (ip : Slot) : Kernel Chase := do
  if (← inode ip).node.type = T_SYMLINK then
    let next ← nameifollow c ip
    iput ip
    match next with
    | none => return .lost
    | some ip =>
      match left with
      | 0 => return .deep ip
      | left + 1 => chase c left ip
  else return .found ip

/-- `namei` up to its `return`. -/
def nameiChase (c : Caller) (path : List UInt8) : Kernel Chase := do
  match ← namex c path false with
  | none => if c.nullType = T_SYMLINK then throw .wild else return .lost
  | some (ip, _) => chase c 10 ip

def namei (c : Caller) (path : List UInt8) : Kernel (Option Slot) := do
  match ← nameiChase c path with
  | .found ip => return some ip
  | .deep _ => return none
  | .lost => return none

def nameiparent (c : Caller) (path : List UInt8) : Kernel (Option (Slot × Name)) := namex c path true

/-! ## The system calls

A path argument is `none` when `argstr` fails. -/

def sysSymlink (c : Caller) (target linkpath : Option (List UInt8)) : Kernel ℤ := do
  match target, linkpath with
  | some target, some linkpath =>
    beginOp
    match ← nameiparent c linkpath with
    | none =>
      endOp
      return -1
    | some (parent, name) =>
      match ← namei c target with
      | none =>
        endOp
        return -1
      | some dip =>
        iput dip
        ilock parent
        if (← dirlookup parent name).isSome then
          iunlockput parent
          endOp
          return -1
        else
          let ip ← ialloc T_SYMLINK
          ilock ip
          assign ip fun nd => { nd with text := target.take ADDRSIZE }
          iupdate ip
          iunlock ip
          if (← dirlink parent name (← inode ip).inum) < 0 then
            iput ip
            iunlockput parent
            return -1
          else
            iunlockput parent
            endOp
            return 0
  | _, _ => return -1

/-- The exit `bad` of `sys_link`. -/
def linkBad (ip : Slot) : Kernel ℤ := do
  ilock ip
  assign ip fun nd => { nd with nlink := nd.nlink - 1 }
  iupdate ip
  iunlockput ip
  endOp
  return -1

def sysLink (c : Caller) (old new : Option (List UInt8)) : Kernel ℤ := do
  match old, new with
  | some old, some new =>
    beginOp
    match ← namei c old with
    | none =>
      endOp
      return -1
    | some ip =>
      ilock ip
      if (← inode ip).node.type = T_DIR then
        iunlockput ip
        endOp
        return -1
      else
        assign ip fun nd => { nd with nlink := nd.nlink + 1 }
        iupdate ip
        iunlock ip
        match ← nameiparent c new with
        | none => linkBad ip
        | some (dp, name) =>
          ilock dp
          if (← dirlink dp name (← inode ip).inum) < 0 then
            iunlockput dp
            linkBad ip
          else
            iunlockput dp
            iput ip
            endOp
            return 0
  | _, _ => return -1

/-- `isdirempty`: only the first two slots may be in use. -/
def isdirempty (m : Dir) : Bool := (m.drop 2).all Option.isNone

/-- The exit `bad` of `sys_unlink`. -/
def unlinkBad (dp : Slot) : Kernel ℤ := do
  iunlockput dp
  endOp
  return -1

def sysUnlink (c : Caller) (path : Option (List UInt8)) : Kernel ℤ := do
  match path with
  | some path =>
    beginOp
    match ← nameiparent c path with
    | none =>
      endOp
      return -1
    | some (dp, name) =>
      ilock dp
      if name = dot ∨ name = dotdot then unlinkBad dp
      else
        match ← dirlookup dp name with
        | none => unlinkBad dp
        | some (ip, off) =>
          ilock ip
          let i ← inode ip
          if i.node.nlink.toInt < 1 then throw (.panic .unlinkNlink)
          if i.node.type = T_DIR ∧ isdirempty ((← get).fs.dir i.inum) = false then
            iunlockput ip
            unlinkBad dp
          else
            let d := (← inode dp).inum
            modify fun s => { s with fs := s.fs.setDir d fun m => SlotMap.clear m off }
            if i.node.type = T_DIR then
              assign dp fun nd => { nd with nlink := nd.nlink - 1 }
              iupdate dp
            iunlockput dp
            assign ip fun nd => { nd with nlink := nd.nlink - 1 }
            iupdate ip
            iunlockput ip
            endOp
            return 0
  | none => return -1

/-- `create`: the inode it returns is locked. -/
def create (c : Caller) (path : List UInt8) (type : ℕ) (major minor : BitVec 16) :
    Kernel (Option Slot) := do
  match ← nameiparent c path with
  | none => return none
  | some (dp, name) =>
    ilock dp
    match ← dirlookup dp name with
    | some (ip, _) =>
      iunlockput dp
      ilock ip
      if type = T_FILE ∧ (← inode ip).node.type = T_FILE then return some ip
      else
        iunlockput ip
        return none
    | none =>
      let ip ← ialloc type
      ilock ip
      assign ip fun nd => { nd with major := major, minor := minor, nlink := 1 }
      iupdate ip
      let n := (← inode ip).inum
      if type = T_DIR then
        assign dp fun nd => { nd with nlink := nd.nlink + 1 }
        iupdate dp
        if (← dirlink ip dot n) < 0 then throw (.panic .createDots)
        if (← dirlink ip dotdot (← inode dp).inum) < 0 then throw (.panic .createDots)
      if (← dirlink dp name n) < 0 then throw (.panic .createDirlink)
      iunlockput dp
      return some ip

def filealloc : Kernel (Option (Fin NFILE)) := do
  match (← get).freeFile with
  | some f =>
    modify fun s => s.setFile f { s.ftable f with ref := 1 }
    return some f
  | none => return none

def fdalloc (c : Caller) (f : Fin NFILE) : Kernel (Option (Fin NOFILE)) := do
  match (← get).freeFd c.pid with
  | some fd =>
    modify fun s => s.setFd c.pid fd (some f)
    return some fd
  | none => return none

/-- `fileclose`; closing a pipe does not concern the inodes. -/
def fileclose (f : Fin NFILE) : Kernel Unit := do
  let ff := (← get).ftable f
  if ff.ref < 1 then throw (.panic .fileclose)
  if 1 < ff.ref then modify fun s => s.setFile f { ff with ref := ff.ref - 1 }
  else
    modify fun s => s.setFile f { ff with ref := 0, type := .none }
    if ff.type = .inode then
      beginOp
      iput ff.ip
      endOp

/-- `O_CREATE`. -/
abbrev O_CREATE : BitVec 32 := 0x200

/-- The end of `sys_open`, with the inode locked. -/
def openInode (c : Caller) (ip : Slot) : Kernel ℤ := do
  match ← filealloc with
  | none =>
    iunlockput ip
    endOp
    return -1
  | some f =>
    match ← fdalloc c f with
    | none =>
      fileclose f
      iunlockput ip
      endOp
      return -1
    | some fd =>
      iunlock ip
      endOp
      modify fun s => s.setFile f { s.ftable f with type := .inode, ip := ip }
      return fd

def sysOpen (c : Caller) (path : Option (List UInt8)) (omode : BitVec 32) : Kernel ℤ := do
  match path with
  | some path =>
    beginOp
    if omode &&& O_CREATE ≠ 0 then
      match ← create c path T_FILE 0 0 with
      | none =>
        endOp
        return -1
      | some ip => openInode c ip
    else
      match ← namei c path with
      | none =>
        endOp
        return -1
      | some ip =>
        ilock ip
        if (← inode ip).node.type = T_DIR ∧ omode ≠ 0 then
          iunlockput ip
          endOp
          return -1
        else openInode c ip
  | none => return -1

/-- `sys_mkdir` and `sys_mknod`. -/
def sysMake (c : Caller) (path : Option (List UInt8)) (type : ℕ) (major minor : BitVec 16) :
    Kernel ℤ := do
  beginOp
  match path with
  | none =>
    endOp
    return -1
  | some path =>
    match ← create c path type major minor with
    | none =>
      endOp
      return -1
    | some ip =>
      iunlockput ip
      endOp
      return 0

def sysMkdir (c : Caller) (path : Option (List UInt8)) : Kernel ℤ := sysMake c path T_DIR 0 0

def sysMknod (c : Caller) (path : Option (List UInt8)) (major minor : BitVec 16) : Kernel ℤ :=
  sysMake c path T_DEV major minor

def sysChdir (c : Caller) (path : Option (List UInt8)) : Kernel ℤ := do
  beginOp
  match path with
  | none =>
    endOp
    return -1
  | some path =>
    match ← namei c path with
    | none =>
      endOp
      return -1
    | some ip =>
      ilock ip
      if (← inode ip).node.type ≠ T_DIR then
        iunlockput ip
        endOp
        return -1
      else
        iunlock ip
        iput ((← get).cwd c.pid)
        endOp
        modify fun s => { s with cwd := Function.update s.cwd c.pid ip }
        return 0

def sysClose (c : Caller) (fd : Fin NOFILE) : Kernel ℤ := do
  match (← get).ofile c.pid fd with
  | none => return -1
  | some f =>
    modify fun s => s.setFd c.pid fd none
    fileclose f
    return 0

/-- The name under which a directory has an inode, as `sys_getcwd` looks for it. -/
def nameOf (m : Dir) (inum : ℕ) : Option Name :=
  (m.find? fun e => e.any fun e => e.2.inum = inum).bind fun e => e.map Prod.fst

/-- Where `sys_getcwd` puts the path together. -/
abbrev TEMPSIZE : ℕ := 512

/-- The loop of `sys_getcwd`: the root, and the text in `temp`.  A name of `DIRSIZ` bytes is not
terminated: `beyond` is what stands behind it. -/
def getcwdLoop (beyond : ℕ → List UInt8) : ℕ → Slot → List UInt8 →
    Kernel (Option (Slot × List UInt8))
  | 0, _, _ => return none
  | fuel + 1, ip, temp => do
    let child := (← inode ip).inum
    if child = ROOTINO then return some (ip, temp)
    else
      ilock ip
      match ← dirlookup ip dotdot with
      | none =>
        iunlockput ip
        return none
      | some (parent, _) =>
        iunlockput ip
        ilock parent
        let n := (← inode parent).inum
        match nameOf ((← get).fs.dir n) child with
        | none =>
          iunlock parent
          iput parent
          return none
        | some name =>
          let temp := (if name.length < DIRSIZ then name else name ++ beyond fuel) ++ temp
          if TEMPSIZE - 1 < temp.length then
            iunlockput parent
            return none
          else if n = ROOTINO then
            iunlock parent
            getcwdLoop beyond fuel parent temp
          else if TEMPSIZE - 1 < temp.length + 1 then
            iunlockput parent
            return none
          else
            iunlock parent
            getcwdLoop beyond fuel parent (slash :: temp)

/-- `sys_getcwd`: the result, and the bytes that are written to `buf`.  `argptr` fails, or gives a
null pointer, where `buf` is `false`. -/
def sysGetcwd (c : Caller) (beyond : ℕ → List UInt8) (buf : Bool) (size : ℤ) :
    Kernel (ℤ × List UInt8) := do
  if buf = false ∨ size ≤ 0 then return (-1, [])
  else
    let ip ← idup ((← get).cwd c.pid)
    if (← inode ip).inum = ROOTINO then
      iput ip
      return if size < 2 then (-1, []) else (0, [slash, 0])
    else
      match ← getcwdLoop beyond (TEMPSIZE + 1) ip [] with
      | none => return (-1, [])
      | some (ip, temp) =>
        iput ip
        if temp = [] then return if size < 2 then (-1, []) else (0, [slash, 0])
        else if size ≤ temp.length then return (-1, [])
        else if temp.head? = some slash then return (0, temp ++ [0])
        else if TEMPSIZE - 1 < temp.length + 1 then return (-1, [])
        else return (0, slash :: temp ++ [0])

/-! ## Calls -/

/-- A system call with its arguments. -/
inductive Syscall where
  | open (path : Option (List UInt8)) (omode : BitVec 32)
  | link (old new : Option (List UInt8))
  | unlink (path : Option (List UInt8))
  | mkdir (path : Option (List UInt8))
  | mknod (path : Option (List UInt8)) (major minor : BitVec 16)
  | chdir (path : Option (List UInt8))
  | symlink (target linkpath : Option (List UInt8))
  | getcwd (beyond : ℕ → List UInt8) (buf : Bool) (size : ℤ)
  | close (fd : Fin NOFILE)

/-- A process makes a system call. -/
def syscall (c : Caller) : Syscall → Kernel ℤ
  | .open path omode => sysOpen c path omode
  | .link old new => sysLink c old new
  | .unlink path => sysUnlink c path
  | .mkdir path => sysMkdir c path
  | .mknod path major minor => sysMknod c path major minor
  | .chdir path => sysChdir c path
  | .symlink target linkpath => sysSymlink c target linkpath
  | .getcwd beyond buf size => Prod.fst <$> sysGetcwd c beyond buf size
  | .close fd => sysClose c fd

end Xv7.Sys
