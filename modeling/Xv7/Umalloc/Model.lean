import Xv7.Lib.Prog
import Xv7.Lib.Memory
import Xv7.Lib.Extent
import Xv7.Lib.Machine

/-!
# The allocator of user programs

`malloc`, `free`, `morecore`, `calloc` and `realloc` over a memory of bytes.  A `Header` is eight bytes,
the pointer `s.ptr` and then `s.size`; a pointer is a number below `2 ^ 32`.  `base` is the address of
the static header of that name.

Beside the memory and `freep` the state has what `sbrk` has handed out so far.  The loops have fuel,
and `Stop.fuel` says that it has run out.
-/

namespace Xv7.Umalloc

/-- A memory. -/
abbrev Mem : Type := ℕ → UInt8

/-- `p->s.ptr`. -/
def ptr (m : Mem) (p : ℕ) : ℕ := Memory.word m p

/-- `p->s.size`. -/
def size (m : Mem) (p : ℕ) : ℕ := Memory.word m (p + 4)

/-- `p->s.ptr = v`. -/
def setPtr (m : Mem) (p v : ℕ) : Mem := Memory.setWord m p v

/-- `p->s.size = v`. -/
def setSize (m : Mem) (p v : ℕ) : Mem := Memory.setWord m (p + 4) v

/-- `p + n`, for a pointer to a header. -/
def plus (p n : ℕ) : ℕ := (p + 8 * n) % 2 ^ 32

/-- A system call `sbrk`: from where the memory handed out so far ends and the number of bytes, either
-1 or memory above everything handed out before. -/
structure Sbrk where
  give : ℕ → ℕ → Option ℕ
  fresh : ∀ {top n p}, give top n = some p → top ≤ p ∧ p + n ≤ 2 ^ 32

/-- The memory of the process and the variables of the allocator. -/
structure State where
  mem : Mem
  freep : ℕ
  /-- The memory that `sbrk` has handed out. -/
  given : List Extent
  /-- Where everything handed out so far ends. -/
  top : ℕ

/-- Why a call does not return. -/
inductive Stop where
  | fuel
  deriving DecidableEq, Repr

/-- A function of the allocator. -/
abbrev Alloc (α : Type) : Type := StateT State (Except Stop) α

/-! ## `free` -/

/-- The condition on which the loop of `free` ends at `p`. -/
def ends (m : Mem) (bp p : ℕ) : Bool :=
  (bp > p && bp < ptr m p) || (p ≥ ptr m p && (bp > p || bp < ptr m p))

/-- The loop of `free`. -/
def spot (m : Mem) (bp : ℕ) : ℕ → ℕ → Option ℕ
  | 0, _ => none
  | n + 1, p => if ends m bp p = true then some p else spot m bp n (ptr m p)

/-- Join the block with the free one behind it, or link it to that one. -/
def joinUpper (m : Mem) (p bp : ℕ) : Mem :=
  if plus bp (size m bp) = ptr m p then
    let m := setSize m bp (size m bp + size m (ptr m p))
    setPtr m bp (ptr m (ptr m p))
  else setPtr m bp (ptr m p)

/-- Join the block with the free one before it, or link that one to it. -/
def joinLower (m : Mem) (p bp : ℕ) : Mem :=
  if plus p (size m p) = bp then
    let m := setSize m p (size m p + size m bp)
    setPtr m p (ptr m bp)
  else setPtr m p bp

/-- `free`. -/
def free (fuel ap : ℕ) : Alloc Unit := do
  let s ← get
  let bp := ap - 8
  match spot s.mem bp fuel s.freep with
  | none => throw .fuel
  | some p => set { s with mem := joinLower (joinUpper s.mem p bp) p bp, freep := p }

/-! ## `malloc` -/

/-- `morecore`. -/
def morecore (sbrk : Sbrk) (fuel nu : ℕ) : Alloc ℕ := do
  let nu := if nu < 4096 then 4096 else nu
  let s ← get
  let n := nu * 8 % 2 ^ 32
  match sbrk.give s.top n with
  | none => return 0
  | some hp => do
    set { s with mem := setSize s.mem hp nu, given := s.given ++ [Extent.mk hp n], top := hp + n }
    free fuel (hp + 8)
    return (← get).freep

/-- Take `nunits` headers from the free block `p`, which `prevp` points to. -/
def carve (nunits prevp p : ℕ) : Alloc ℕ := do
  let s ← get
  if size s.mem p = nunits then
    set { s with mem := setPtr s.mem prevp (ptr s.mem p), freep := prevp }
    return p + 8
  else
    let m := setSize s.mem p (size s.mem p - nunits)
    let p := plus p (size m p)
    set { s with mem := setSize m p nunits, freep := prevp }
    return p + 8

/-- The loop of `malloc`. -/
def search (sbrk : Sbrk) (fuel nunits : ℕ) : ℕ → ℕ → ℕ → Alloc ℕ
  | 0, _, _ => throw .fuel
  | n + 1, prevp, p => do
    let s ← get
    if nunits ≤ size s.mem p then carve nunits prevp p
    else if p = s.freep then do
      let p ← morecore sbrk fuel nunits
      if p = 0 then return 0
      else do
        let s ← get
        search sbrk fuel nunits n p (ptr s.mem p)
    else search sbrk fuel nunits n p (ptr s.mem p)

/-- The number of headers that `malloc` takes for a number of bytes. -/
def units (nbytes : ℕ) : ℕ := (nbytes + 8 - 1) % 2 ^ 32 / 8 + 1

/-- The first call makes a list of `base` alone. -/
def initialise (base : ℕ) : Alloc Unit := do
  let s ← get
  if s.freep = 0 then
    set { s with mem := setSize (setPtr s.mem base base) base 0, freep := base }
  else return ()

/-- `malloc`. -/
def malloc (base : ℕ) (sbrk : Sbrk) (fuel nbytes : ℕ) : Alloc ℕ := do
  initialise base
  let s ← get
  search sbrk fuel (units nbytes) fuel s.freep (ptr s.mem s.freep)

/-! ## `calloc` and `realloc` -/

/-- `memset`. -/
def memset (m : Mem) (dst : ℕ) (c : UInt8) (n : ℕ) : Mem :=
  fun x => if dst ≤ x ∧ x < dst + n then c else m x

/-- `memmove`, which copies upwards. -/
def memmove (m : Mem) (dst src : ℕ) : ℕ → Mem
  | 0 => m
  | n + 1 => memmove (Function.update m dst (m src)) (dst + 1) (src + 1) n

/-- `calloc`. -/
def calloc (base : ℕ) (sbrk : Sbrk) (fuel nmemb size : ℕ) : Alloc ℕ := do
  if nmemb = 0 ∨ size = 0 then malloc base sbrk fuel 0
  else
    let total := nmemb * size % 2 ^ 32
    if size ≠ 0 ∧ total / size ≠ nmemb then return 0
    else do
      let p ← malloc base sbrk fuel total
      if p = 0 then return 0
      else do
        modify fun s => { s with mem := memset s.mem p 0 total }
        return p

/-- `realloc`. -/
def realloc (base : ℕ) (sbrk : Sbrk) (fuel p n : ℕ) : Alloc ℕ := do
  if p = 0 then malloc base sbrk fuel n
  else if n = 0 then do
    free fuel p
    return 0
  else do
    let s ← get
    let old := (size s.mem (p - 8) - 1) * 8 % 2 ^ 32
    let q ← malloc base sbrk fuel n
    if q = 0 then return 0
    else do
      modify fun s => { s with mem := memmove s.mem q p (if old < n then old else n) }
      free fuel p
      return q

/-! ## A program that uses the allocator -/

/-- A call, or a store by the program. -/
inductive Call where
  | malloc (n : ℕ)
  | calloc (nmemb size : ℕ)
  | realloc (p n : ℕ)
  | free (p : ℕ)
  /-- `p[i] = v`. -/
  | store (p i : ℕ) (v : UInt8)

/-- The allocator, and the pointers that the program holds, each with the size it asked for. -/
structure Program where
  heap : State
  live : List (ℕ × ℕ)

/-- The program has the pointer from a call and has not given it back. -/
def Program.Live (s : Program) (p : ℕ) : Prop := p ∈ s.live.map Prod.fst

/-- The block of a pointer, with its header. -/
def Program.block (s : Program) (p : ℕ) : Extent := ⟨p - 8, 8 * size s.heap.mem (p - 8)⟩

/-- The program may make the call: the sizes are below `2 ^ 30`, and pointers are live.  A product of
`2 ^ 32` or more is no size, and `calloc` may refuse it. -/
def Program.Legal (s : Program) : Call → Prop
  | .malloc n => n < 2 ^ 30
  | .calloc nmemb size =>
    nmemb < 2 ^ 32 ∧ size < 2 ^ 32 ∧ (nmemb * size < 2 ^ 30 ∨ 2 ^ 32 ≤ nmemb * size)
  | .realloc p n => n < 2 ^ 30 ∧ (p = 0 ∨ s.Live p)
  | .free p => s.Live p
  | .store p i _ => s.Live p ∧ p + i < (s.block p).stop

/-- The pointers without `p`. -/
def drop (p : ℕ) (live : List (ℕ × ℕ)) : List (ℕ × ℕ) := live.eraseP (·.1 == p)

/-- The pointers with the result of a call, unless it is null. -/
def keep (r n : ℕ) (live : List (ℕ × ℕ)) : List (ℕ × ℕ) := if r = 0 then live else live ++ [(r, n)]

/-- A call of the program, with its result. -/
def call (base fuel : ℕ) (sbrk : Sbrk) (s : Program) : Call → Except Stop (ℕ × Program)
  | .malloc n => do
    let (r, heap) ← malloc base sbrk fuel n s.heap
    return (r, ⟨heap, keep r n s.live⟩)
  | .calloc nmemb size => do
    let (r, heap) ← calloc base sbrk fuel nmemb size s.heap
    return (r, ⟨heap, keep r (nmemb * size) s.live⟩)
  | .realloc p n => do
    let (r, heap) ← realloc base sbrk fuel p n s.heap
    return (r, ⟨heap, if r = 0 ∧ n ≠ 0 then s.live else keep r n (drop p s.live)⟩)
  | .free p => do
    let (_, heap) ← free fuel p s.heap
    return (0, ⟨heap, drop p s.live⟩)
  | .store p i v =>
    return (0, ⟨{ s.heap with mem := Function.update s.heap.mem (p + i) v }, s.live⟩)

instance (s : Program) (c : Call) : Decidable (s.Legal c) :=
  match c with
  | .malloc n => inferInstanceAs (Decidable (n < 2 ^ 30))
  | .calloc nmemb size => inferInstanceAs (Decidable
      (nmemb < 2 ^ 32 ∧ size < 2 ^ 32 ∧ (nmemb * size < 2 ^ 30 ∨ 2 ^ 32 ≤ nmemb * size)))
  | .realloc p n => inferInstanceAs (Decidable (n < 2 ^ 30 ∧ (p = 0 ∨ p ∈ s.live.map Prod.fst)))
  | .free p => inferInstanceAs (Decidable (p ∈ s.live.map Prod.fst))
  | .store p i _ => inferInstanceAs (Decidable
      (p ∈ s.live.map Prod.fst ∧ p + i < (s.block p).stop))

/-- A step of the program: a legal call that returns. -/
def step (base fuel : ℕ) (s : Program) (e : Call × Sbrk) : Option Program :=
  if s.Legal e.1 then ((call base fuel e.2 s e.1).toOption).map Prod.snd else none

/-- The program before its first call, with anything in its memory. -/
def Program.start (base : ℕ) (m : Mem) : Program := ⟨⟨m, 0, [], base + 8⟩, []⟩

end Xv7.Umalloc
