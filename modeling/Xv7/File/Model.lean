import Xv7.File.Append
import Xv7.Pipe.Model
import Xv7.Sys.Model

/-!
# Open files

`file.c`, the calls on descriptors and pipes of `sysfile.c`, and `fork`, `exit` and `wait` as far as
they concern open files.  A call runs as a whole.  What the names of files are and how devices behave
is left open; any other file is its contents, and a pipe is a queue of bytes.

A handle is a reference to an inode that `namei` or `create` has returned.  Each handle has a number
of its own, and so has the page of each pipe; what happens to them is recorded in the order in which
it happens.
-/

namespace Xv7.Ftable

open Ptable (NPROC)
open Sys (NFILE NOFILE)

/-- `struct file`. -/
structure File where
  type : FdType
  ref : ℕ
  readable : Bool
  writable : Bool
  /-- The page of the pipe. -/
  pipe : Option ℕ
  /-- The handle. -/
  ip : Option ℕ
  off : ℕ
  flags : BitVec 32
  deriving DecidableEq, Repr

/-- `struct pipe`: the bytes between `nread` and `nwrite`, and the ends that are open. -/
structure PipeBuf where
  data : List UInt8
  readopen : Bool
  writeopen : Bool
  deriving DecidableEq, Repr

/-- The release of what a file stands for: the handle, or an end of the pipe (`true` is the end for
writing). -/
inductive Release where
  | iput (h : ℕ)
  | pipeclose (p : ℕ) (w : Bool)
  deriving DecidableEq, Repr

/-- What happens to handles and to the pages of pipes. -/
inductive Effect where
  | release (r : Release)
  | kfree (p : ℕ)
  /-- The page is read or written. -/
  | access (p : ℕ)
  /-- `f->ip->size` is read for `F_APPEND`. -/
  | consult (ip : Option ℕ)
  deriving DecidableEq, Repr

/-- The state of a slot of the process table: free, of a live process, or waiting for `wait`. -/
inductive Life where
  | unused
  | live
  | zombie
  deriving DecidableEq, Repr

/-- What a call returns: a number, or the bytes that it has read.  A call that sleeps goes on later as
a call for what is left to do. -/
inductive Result where
  | ret (r : ℤ)
  | bytes (bs : List UInt8)
  | blocked
  deriving DecidableEq, Repr

/-- What `namei` and `create` find, which inodes are directories and devices, and what the devices
do.  `create` says if the inode is a new one. -/
structure FileSystem where
  Names : Type
  Devices : Type
  namei : Names → List UInt8 → Option ℕ
  create : Names → List UInt8 → Option (ℕ × Bool × Names)
  isDir : Names → ℕ → Bool
  isDev : Names → ℕ → Bool
  devread : Devices → ℕ → ℕ → Result × Devices
  /-- `none` is -1; else all was written. -/
  devwrite : Devices → ℕ → List UInt8 → Option Devices

/-- The open files, the descriptors, and what they lead to. -/
structure State (v : FileSystem) where
  ftable : Fin NFILE → File
  ofile : Fin NPROC → Fin NOFILE → Option (Fin NFILE)
  life : Fin NPROC → Life
  pid : Fin NPROC → ℕ
  nextpid : ℕ
  names : v.Names
  devices : v.Devices
  contents : ℕ → List UInt8
  /-- The inode of a handle. -/
  inum : ℕ → ℕ
  pipes : ℕ → PipeBuf
  nextIp : ℕ
  nextPipe : ℕ
  log : List Effect

/-- Why the kernel stops. -/
inductive Panic where
  | filedup
  | fileclose
  | fileread
  | filewrite
  | initExiting
  deriving DecidableEq, Repr

/-- Code of the kernel. -/
abbrev Kernel (v : FileSystem) := StateT (State v) (Except Panic)

variable {v : FileSystem}

namespace State

/-- Change a file. -/
def setFile (s : State v) (f : Fin NFILE) (file : File) : State v :=
  { s with ftable := Function.update s.ftable f file }

/-- Change a descriptor. -/
def setFd (s : State v) (p : Fin NPROC) (fd : Fin NOFILE) (f : Option (Fin NFILE)) : State v :=
  { s with ofile := Function.update s.ofile p (Function.update (s.ofile p) fd f) }

/-- Change a pipe. -/
def setPipe (s : State v) (p : ℕ) (pipe : PipeBuf) : State v :=
  { s with pipes := Function.update s.pipes p pipe }

/-- Record what happens. -/
def record (s : State v) (e : Effect) : State v := { s with log := s.log ++ [e] }

/-- The file that `filealloc` takes. -/
def freeFile (s : State v) : Option (Fin NFILE) :=
  (List.finRange NFILE).find? fun f => (s.ftable f).ref = 0

/-- The descriptor that `fdalloc` takes. -/
def freeFd (s : State v) (p : Fin NPROC) : Option (Fin NOFILE) :=
  (List.finRange NOFILE).find? fun fd => s.ofile p fd = none

/-- The slot that `allocproc` takes. -/
def freeProc (s : State v) : Option (Fin NPROC) :=
  (List.finRange NPROC).find? fun p => s.life p = .unused

end State

/-! ## Files and pipes -/

/-- `filealloc`. -/
def filealloc : Kernel v (Option (Fin NFILE)) := do
  let s ← get
  match s.freeFile with
  | none => return none
  | some f => do
    modify fun s => s.setFile f { s.ftable f with ref := 1 }
    return some f

/-- `filedup`. -/
def filedup (f : Fin NFILE) : Kernel v Unit := do
  let s ← get
  if (s.ftable f).ref < 1 then throw .filedup
  else modify fun s => s.setFile f { s.ftable f with ref := (s.ftable f).ref + 1 }

/-- `pipeclose`. -/
def pipeclose (p : ℕ) (writable : Bool) : Kernel v Unit := do
  let s ← get
  let pipe := s.pipes p
  let pipe := if writable then { pipe with writeopen := false } else { pipe with readopen := false }
  modify fun s => ((s.record (.access p)).record (.release (.pipeclose p writable))).setPipe p pipe
  if pipe.readopen = false ∧ pipe.writeopen = false then modify fun s => s.record (.kfree p)
  else return ()

/-- `fileclose`. -/
def fileclose (f : Fin NFILE) : Kernel v Unit := do
  let s ← get
  let ff := s.ftable f
  if ff.ref < 1 then throw .fileclose
  else if 0 < ff.ref - 1 then modify fun s => s.setFile f { ff with ref := ff.ref - 1 }
  else do
    modify fun s => s.setFile f { ff with ref := 0, type := .none }
    match ff.type, ff.pipe, ff.ip with
    | .pipe, some p, _ => pipeclose p ff.writable
    | .inode, _, some h => modify fun s => s.record (.release (.iput h))
    | _, _, _ => return ()

/-- `piperead`. -/
def piperead (p : ℕ) (n : ℕ) : Kernel v Result := do
  let s ← get
  let pipe := s.pipes p
  modify fun s => s.record (.access p)
  if pipe.data = [] ∧ pipe.writeopen = true then return .blocked
  else do
    modify fun s => s.setPipe p { pipe with data := pipe.data.drop n }
    return .bytes (pipe.data.take n)

/-- `pipewrite`: what there is room for is stored before the call sleeps or fails. -/
def pipewrite (p : ℕ) (src : List UInt8) : Kernel v Result := do
  let s ← get
  let pipe := s.pipes p
  let room := PIPESIZE - pipe.data.length
  modify fun s => (s.record (.access p)).setPipe p { pipe with data := pipe.data ++ src.take room }
  if src.length ≤ room then return .ret src.length
  else if pipe.readopen = false then return .ret (-1)
  else return .blocked

/-- `readi` through handle `h`. -/
def readi (s : State v) (h off n : ℕ) : Result × State v :=
  if v.isDev s.names (s.inum h) then
    let (r, devices) := v.devread s.devices (s.inum h) n
    (r, { s with devices })
  else if (s.contents (s.inum h)).length < off then (.ret (-1), s)
  else (.bytes (((s.contents (s.inum h)).drop off).take n), s)

/-- `writei` through handle `h`; `none` is -1. -/
def writei (s : State v) (h off : ℕ) (src : List UInt8) : Option (State v) :=
  if v.isDev s.names (s.inum h) then
    (v.devwrite s.devices (s.inum h) src).map fun devices => { s with devices }
  else
    (Append.writei (s.contents (s.inum h)) off src).map fun contents =>
      { s with contents := Function.update s.contents (s.inum h) contents }

/-- How far a read moves the offset. -/
def Result.count : Result → ℕ
  | .bytes bs => bs.length
  | _ => 0

/-- `fileread`. -/
def fileread (f : Fin NFILE) (n : ℕ) : Kernel v Result := do
  let s ← get
  let file := s.ftable f
  if file.readable = false then return .ret (-1)
  else match file.type, file.pipe, file.ip with
    | .pipe, some p, _ => piperead p n
    | .inode, _, some h => do
      let (r, s) := readi s h file.off n
      set (s.setFile f { file with off := file.off + r.count })
      return r
    | _, _, _ => throw .fileread

/-- The loop of `filewrite`, and if it has come to the end. -/
def writeLoop (f : Fin NFILE) (h : ℕ) : ℕ → State v → List UInt8 → State v × Bool
  | 0, s, src => (s, src = [])
  | fuel + 1, s, src =>
    if src = [] then (s, true)
    else
      let file := s.ftable f
      match writei s h file.off (src.take MAXWRITE) with
      | none => (s, false)
      | some s => writeLoop f h fuel
          (s.setFile f { file with off := file.off + (src.take MAXWRITE).length }) (src.drop MAXWRITE)

/-- `F_APPEND`. -/
abbrev F_APPEND : BitVec 32 := 1

/-- The flag `F_APPEND` is set. -/
def File.Appends (file : File) : Prop := file.flags &&& F_APPEND ≠ 0
  deriving Decidable

/-- `ip->size`; what is at the place of the size without an inode is left open. -/
def State.sizeOf (s : State v) (ip : Option ℕ) : ℕ :=
  (ip.map fun h => (s.contents (s.inum h)).length).getD 0

/-- `f->off = f->ip->size`. -/
def State.seekEnd (s : State v) (f : Fin NFILE) : State v :=
  (s.record (.consult (s.ftable f).ip)).setFile f { s.ftable f with off := s.sizeOf (s.ftable f).ip }

/-- The start of `filewrite`: with `F_APPEND` the offset is moved to the end. -/
def State.sought (s : State v) (f : Fin NFILE) : State v := if (s.ftable f).Appends then s.seekEnd f else s

/-- `filewrite`.  With `F_APPEND` the size of the inode is read first, whatever the file is. -/
def filewrite (f : Fin NFILE) (src : List UInt8) : Kernel v Result := do
  modify fun s => s.sought f
  let s ← get
  let file := s.ftable f
  if file.writable = false then return .ret (-1)
  else match file.type, file.pipe, file.ip with
    | .pipe, some p, _ => pipewrite p src
    | .inode, _, some h => do
      let (s, done) := writeLoop f h src.length s src
      set s
      return .ret (if done then src.length else -1)
    | _, _, _ => throw .filewrite

/-- `pipealloc`; `page` says if `kalloc` returns one. -/
def pipealloc (page : Bool) : Kernel v (Option (Fin NFILE × Fin NFILE)) := do
  match ← filealloc with
  | none => return none
  | some f0 => do
    match ← filealloc with
    | none => do
      fileclose f0
      return none
    | some f1 =>
      if page = false then do
        fileclose f0
        fileclose f1
        return none
      else do
        let p := (← get).nextPipe
        modify fun s => { (s.record (.access p)).setPipe p ⟨[], true, true⟩ with nextPipe := p + 1 }
        modify fun s => s.setFile f0 { s.ftable f0 with
          type := .pipe, readable := true, writable := false, pipe := some p }
        modify fun s => s.setFile f1 { s.ftable f1 with
          type := .pipe, readable := false, writable := true, pipe := some p }
        return some (f0, f1)

/-! ## Descriptors -/

/-- `argfd`, and what a call does with the file. -/
def withFd (p : Fin NPROC) (fd : ℤ) (call : Fin NOFILE → Fin NFILE → Kernel v Result) :
    Kernel v Result := do
  let s ← get
  if h : 0 ≤ fd ∧ fd < NOFILE then
    let fd : Fin NOFILE := ⟨fd.toNat, by omega⟩
    match s.ofile p fd with
    | none => return .ret (-1)
    | some f => call fd f
  else return .ret (-1)

/-- `fdalloc`. -/
def fdalloc (p : Fin NPROC) (f : Fin NFILE) : Kernel v (Option (Fin NOFILE)) := do
  let s ← get
  match s.freeFd p with
  | none => return none
  | some fd => do
    modify fun s => s.setFd p fd (some f)
    return some fd

/-- `sys_dup`. -/
def sysDup (p : Fin NPROC) (fd : ℤ) : Kernel v Result := withFd p fd fun _ f => do
  match ← fdalloc p f with
  | none => return .ret (-1)
  | some fd' => do
    filedup f
    return .ret fd'.val

/-- `sys_close`. -/
def sysClose (p : Fin NPROC) (fd : ℤ) : Kernel v Result := withFd p fd fun fd f => do
  modify fun s => s.setFd p fd none
  fileclose f
  return .ret 0

/-- `O_RDONLY`. -/
abbrev O_RDONLY : BitVec 32 := 0

/-- `O_WRONLY`. -/
abbrev O_WRONLY : BitVec 32 := 1

/-- `O_RDWR`. -/
abbrev O_RDWR : BitVec 32 := 2

/-- `O_CREATE`. -/
abbrev O_CREATE : BitVec 32 := 0x200

/-- `O_APPEND`. -/
abbrev O_APPEND : BitVec 32 := 0x800

/-- A reference to an inode. -/
def iget (inum : ℕ) : Kernel v ℕ := do
  let h := (← get).nextIp
  modify fun s => { s with nextIp := h + 1, inum := Function.update s.inum h inum }
  return h

/-- The second part of `sys_open`: a file and a descriptor for the inode. -/
def openInode (p : Fin NPROC) (h : ℕ) (omode : BitVec 32) : Kernel v Result := do
  match ← filealloc with
  | none => do
    modify fun s => s.record (.release (.iput h))
    return .ret (-1)
  | some f => do
    match ← fdalloc p f with
    | none => do
      fileclose f
      modify fun s => s.record (.release (.iput h))
      return .ret (-1)
    | some fd => do
      modify fun s => s.setFile f { s.ftable f with
        type := .inode, ip := some h, off := 0
        readable := omode &&& O_WRONLY = 0
        writable := omode &&& O_WRONLY ≠ 0 ∨ omode &&& O_RDWR ≠ 0 }
      return .ret fd.val

/-- `sys_open`. -/
def sysOpen (p : Fin NPROC) (path : List UInt8) (omode : BitVec 32) : Kernel v Result := do
  let s ← get
  if omode &&& O_CREATE ≠ 0 then
    match v.create s.names path with
    | none => return .ret (-1)
    | some (inum, new, names) => do
      modify fun s => { s with
        names
        contents := if new then Function.update s.contents inum [] else s.contents }
      let h ← iget inum
      openInode p h omode
  else
    match v.namei s.names path with
    | none => return .ret (-1)
    | some inum => do
      let h ← iget inum
      if v.isDir s.names inum ∧ omode ≠ O_RDONLY then do
        modify fun s => s.record (.release (.iput h))
        return .ret (-1)
      else openInode p h omode

/-- `sys_pipe`, after `argptr`. -/
def sysPipe (p : Fin NPROC) (page : Bool) : Kernel v Result := do
  match ← pipealloc page with
  | none => return .ret (-1)
  | some (rf, wf) => do
    match ← fdalloc p rf with
    | none => do
      fileclose rf
      fileclose wf
      return .ret (-1)
    | some fd0 => do
      match ← fdalloc p wf with
      | none => do
        modify fun s => s.setFd p fd0 none
        fileclose rf
        fileclose wf
        return .ret (-1)
      | some _ => return .ret 0

/-- `fcntl(fd, F_GETFL)`. -/
def getfl (f : Fin NFILE) : Kernel v Result := do
  let file := (← get).ftable f
  return .ret (if file.readable ∧ ¬ file.writable then O_RDONLY.toInt
    else if ¬ file.readable ∧ file.writable then O_WRONLY.toInt else O_RDWR.toInt)

/-- `fcntl(fd, F_SETFL, arg)`. -/
def setfl (f : Fin NFILE) (arg : BitVec 32) : Kernel v Result := do
  modify fun s => if arg &&& O_APPEND ≠ 0 then
    s.setFile f { s.ftable f with flags := (s.ftable f).flags ||| F_APPEND } else s
  return .ret 0

/-! ## Processes -/

/-- The loop of `fork` over the descriptors. -/
def dupLoop (p np : Fin NPROC) : List (Fin NOFILE) → Kernel v Unit
  | [] => return ()
  | fd :: fds => do
    match (← get).ofile p fd with
    | none => dupLoop p np fds
    | some f => do
      filedup f
      modify fun s => s.setFd np fd (some f)
      dupLoop p np fds

/-- `fork`; `stack` and `copy` say if `allocproc` and `copyuvm` find the memory. -/
def fork (p : Fin NPROC) (stack copy : Bool) : Kernel v Result := do
  match (← get).freeProc with
  | none => return .ret (-1)
  | some np => do
    let pid := (← get).nextpid
    modify fun s => { s with nextpid := pid + 1, pid := Function.update s.pid np pid }
    if stack = false ∨ copy = false then return .ret (-1)
    else do
      modify fun s => { s with life := Function.update s.life np .live }
      dupLoop p np (List.finRange NOFILE)
      return .ret pid

/-- The loop of `exit` over the descriptors. -/
def closeLoop (p : Fin NPROC) : List (Fin NOFILE) → Kernel v Unit
  | [] => return ()
  | fd :: fds => do
    match (← get).ofile p fd with
    | none => closeLoop p fds
    | some f => do
      fileclose f
      modify fun s => s.setFd p fd none
      closeLoop p fds

/-- The slot of `initproc`. -/
abbrev initproc : Fin NPROC := 0

/-- `exit`. -/
def exit (p : Fin NPROC) : Kernel v Result := do
  if p = initproc then throw .initExiting
  else do
    closeLoop p (List.finRange NOFILE)
    modify fun s => { s with life := Function.update s.life p .zombie }
    return .ret 0

/-- `wait` finds the child `np`. -/
def wait (np : Fin NPROC) : Kernel v Result := do
  let s ← get
  if s.life np = .zombie then do
    modify fun s => { s with
      life := Function.update s.life np .unused, pid := Function.update s.pid np 0 }
    return .ret (s.pid np)
  else return .ret (-1)

/-! ## Calls -/

/-- The system calls, with what is decided elsewhere: if there is memory, and which child `wait`
finds.  `fcntl` does not check its descriptor, and is here for those that are one. -/
inductive Call where
  | open (path : List UInt8) (omode : BitVec 32)
  | dup (fd : ℤ)
  | close (fd : ℤ)
  | pipe (page : Bool)
  | fork (stack copy : Bool)
  | exit
  | wait (np : Fin NPROC)
  | read (fd : ℤ) (n : ℕ)
  | write (fd : ℤ) (src : List UInt8)
  | getfl (fd : Fin NOFILE)
  | setfl (fd : Fin NOFILE) (arg : BitVec 32)
  deriving DecidableEq, Repr

/-- A system call of process `p`. -/
def syscall (p : Fin NPROC) : Call → Kernel v Result
  | .open path omode => sysOpen p path omode
  | .dup fd => sysDup p fd
  | .close fd => sysClose p fd
  | .pipe page => sysPipe p page
  | .fork stack copy => fork p stack copy
  | .exit => exit p
  | .wait np => wait np
  | .read fd n => withFd p fd fun _ f => fileread f n
  | .write fd src => withFd p fd fun _ f => filewrite f src
  | .getfl fd => withFd p fd.val fun _ f => getfl f
  | .setfl fd arg => withFd p fd.val fun _ f => setfl f arg

/-- A process makes a system call. -/
def step (s : State v) (e : Fin NPROC × Call) : Option (State v) :=
  if s.life e.1 = .live then (syscall e.1 e.2 s).toOption.map Prod.snd else none

/-- No file is open, and there is only the first process. -/
def State.init (names : v.Names) (devices : v.Devices) (contents : ℕ → List UInt8) : State v where
  ftable _ := ⟨.none, 0, false, false, none, none, 0, 0⟩
  ofile _ _ := none
  life p := if p = initproc then .live else .unused
  pid p := if p = initproc then 1 else 0
  nextpid := 2
  names := names
  devices := devices
  contents := contents
  inum _ := 0
  pipes _ := ⟨[], false, false⟩
  nextIp := 0
  nextPipe := 0
  log := []

end Xv7.Ftable
