import Xv7.Umalloc.Behind

/-!
# The allocator over the kernel's `sbrk`

`morecore` passes the number of bytes to `sbrk`, which takes an `int`.  Here `sbrk` is the one of the
kernel: `sys_sbrk` and `growproc`, with what `allocuvm` and `deallocuvm` do to the size of the user
memory.  Of the memory of a process the kernel has the size `sz`, and the pages below `mapped`.

A request of `2 ^ 31` bytes or more is a negative number there.  Depending on `sz`, the kernel then
takes memory away, or does nothing and reports success.
-/

namespace Xv7.Umalloc

open Extent Circle Prog

namespace Kernel

/-! ## The kernel -/

/-- The size of a page. -/
abbrev PGSIZE : ℕ := 4096

/-- Where the memory of the kernel starts. -/
abbrev KERNBASE : ℕ := 0x80000000

/-- `PGROUNDUP`, for an address of a user. -/
def pgroundup (a : ℕ) : ℕ := (a + PGSIZE - 1) / PGSIZE * PGSIZE

/-- The user memory of a process: its size, and where its pages end. -/
structure Space where
  sz : ℕ
  mapped : ℕ
  deriving DecidableEq, Repr

/-- `allocuvm` from the size of the process on, with the size it returns.  There are pages enough if
`ok`; if not, `allocuvm` takes back those it has added. -/
def Space.allocuvm (ok : Bool) (m : Space) (newsz : ℕ) : ℕ × Space :=
  if KERNBASE ≤ newsz then (0, m)
  else if newsz < m.sz then (m.sz, m)
  else if ok = true then (newsz, { m with mapped := max m.mapped (pgroundup newsz) })
  else (0, m)

/-- `deallocuvm` down from the size of the process, with the size it returns. -/
def Space.deallocuvm (m : Space) (newsz : ℕ) : ℕ × Space :=
  if m.sz ≤ newsz then (m.sz, m)
  else (newsz, { m with mapped := min m.mapped (pgroundup newsz) })

/-- What `growproc` does with the size that `allocuvm` or `deallocuvm` returns: 0 is an error. -/
def resize (r : ℕ × Space) : Bool × Space :=
  if r.1 = 0 then (false, r.2) else (true, { r.2 with sz := r.1 })

/-- `growproc`, which is true where it returns 0. -/
def growproc (ok : Bool) (n : BitVec 32) (m : Space) : Bool × Space :=
  let newsz := (m.sz + n.toNat) % 2 ^ 32
  if 0 < n.toInt then resize (m.allocuvm ok newsz)
  else if n.toInt < 0 then resize (m.deallocuvm newsz)
  else (true, m)

/-- `sys_sbrk`, which returns the size before the call or -1. -/
def sysSbrk (ok : Bool) (n : BitVec 32) (m : Space) : Option ℕ × Space :=
  match growproc ok n m with
  | (false, m') => (none, m')
  | (true, m') => (some m.sz, m')

/-! ## The allocator -/

/-- A process: the allocator, and what the kernel has of its memory. -/
structure Proc where
  heap : State
  space : Space

/-- Why a call does not return. -/
inductive Halt where
  | fuel
  /-- An access above the pages. -/
  | fault
  deriving DecidableEq, Repr

/-- A function of the process. -/
abbrev User (α : Type) : Type := StateT Proc (Except Halt) α

/-- A function of the allocator that does not call the kernel. -/
def onHeap {α : Type} (x : Alloc α) : User α := fun p =>
  match x p.heap with
  | .ok (a, heap) => .ok (a, { p with heap := heap })
  | .error .fuel => .error .fuel

/-- The number of headers that `morecore` asks the kernel for. -/
def ask (nu : ℕ) : ℕ := if nu < 4096 then 4096 else nu

/-- `morecore`.  The store to `hp->s.size` is the access to the highest address, so a process that gets
over it accesses only its pages. -/
def morecore (ok : Bool) (fuel nu : ℕ) : User ℕ := do
  let p ← get
  match sysSbrk ok (BitVec.ofNat 32 (ask nu * 8)) p.space with
  | (none, space) => do
    set { p with space := space }
    return 0
  | (some hp, space) => do
    if space.mapped < hp + 8 then throw .fault
    else do
      set (Proc.mk (received p.heap hp (ask nu)) space)
      onHeap (free fuel (hp + 8))
      return (← get).heap.freep

/-- The loop of `malloc`. -/
def search (ok : Bool) (fuel nunits : ℕ) : ℕ → ℕ → ℕ → User ℕ
  | 0, _, _ => throw .fuel
  | n + 1, prevp, x => do
    let p ← get
    if nunits ≤ size p.heap.mem x then onHeap (carve nunits prevp x)
    else if x = p.heap.freep then do
      let x ← morecore ok fuel nunits
      if x = 0 then return 0
      else do
        let p ← get
        search ok fuel nunits n x (ptr p.heap.mem x)
    else search ok fuel nunits n x (ptr p.heap.mem x)

/-- `malloc`. -/
def malloc (base : ℕ) (ok : Bool) (fuel nbytes : ℕ) : User ℕ := do
  onHeap (initialise base)
  let p ← get
  search ok fuel (units nbytes) fuel p.heap.freep (ptr p.heap.mem p.heap.freep)

/-! ## What the kernel answers -/

section Answers

variable {ok : Bool} {m : Space} {b : ℕ}

/-- The kernel can give `b` more bytes. -/
def Space.Gives (m : Space) (ok : Bool) (b : ℕ) : Prop := m.sz + b < KERNBASE ∧ ok = true

/-- The memory with `b` more bytes. -/
def Space.grown (m : Space) (b : ℕ) : Space := ⟨m.sz + b, max m.mapped (pgroundup (m.sz + b))⟩

lemma le_pgroundup (a : ℕ) : a ≤ pgroundup a := by
  simp only [pgroundup, PGSIZE]
  omega

lemma resize_of_pos {r : ℕ × Space} (h : r.1 ≠ 0) : resize r = (true, { r.2 with sz := r.1 }) :=
  if_neg h

lemma growproc_of_pos {n : BitVec 32} (h : 0 < n.toInt) :
    growproc ok n m = resize (m.allocuvm ok ((m.sz + n.toNat) % 2 ^ 32)) := if_pos h

lemma growproc_of_neg {n : BitVec 32} (h : n.toInt < 0) :
    growproc ok n m = resize (m.deallocuvm ((m.sz + n.toNat) % 2 ^ 32)) := by
  rw [growproc, if_neg h.not_gt, if_pos h]

/-- A request that is a positive `int` grows the memory, or leaves it as it is. -/
lemma sysSbrk_small (ok : Bool) (hb : 0 < b) (hlt : b < 2 ^ 31) (hsz : m.sz < KERNBASE) :
    (m.Gives ok b ∧ sysSbrk ok (BitVec.ofNat 32 b) m = (some m.sz, m.grown b)) ∨
      (¬ m.Gives ok b ∧ sysSbrk ok (BitVec.ofNat 32 b) m = (none, m)) := by
  simp only [KERNBASE] at hsz
  have hnat : (BitVec.ofNat 32 b).toNat = b := by
    rw [BitVec.toNat_ofNat]
    omega
  have hint : 0 < (BitVec.ofNat 32 b).toInt := by
    rw [BitVec.toInt_eq_toNat_cond, hnat]
    split_ifs <;> omega
  have hgrow : growproc ok (BitVec.ofNat 32 b) m = resize (m.allocuvm ok (m.sz + b)) := by
    rw [growproc_of_pos hint, hnat, Nat.mod_eq_of_lt (by omega)]
  rw [sysSbrk, hgrow, Space.allocuvm]
  by_cases hroom : KERNBASE ≤ m.sz + b
  · rw [if_pos hroom]
    exact .inr ⟨fun h => absurd h.1 (by omega), rfl⟩
  · rw [if_neg hroom, if_neg (by omega)]
    cases ok with
    | false => exact .inr ⟨fun h => Bool.false_ne_true h.2, rfl⟩
    | true =>
      rw [if_pos rfl, resize_of_pos (show m.sz + b ≠ 0 by omega)]
      exact .inl ⟨⟨by omega, rfl⟩, rfl⟩

/-- A request that is a negative `int`, or 0, is a success without more memory, or else takes all pages
away and is an error. -/
lemma sysSbrk_large (ok : Bool) (hle : 2 ^ 31 ≤ b) (hlt : b ≤ 2 ^ 32) (hpos : 0 < m.sz) :
    ∃ m', m'.sz ≤ m.sz ∧ (sysSbrk ok (BitVec.ofNat 32 b) m = (some m.sz, m') ∨
      (sysSbrk ok (BitVec.ofNat 32 b) m = (none, m') ∧ m'.mapped = 0)) := by
  rcases hlt.eq_or_lt with rfl | hlt
  · exact ⟨m, le_rfl, .inl rfl⟩
  have hnat : (BitVec.ofNat 32 b).toNat = b := by
    rw [BitVec.toNat_ofNat]
    omega
  have hint : (BitVec.ofNat 32 b).toInt < 0 := by
    rw [BitVec.toInt_eq_toNat_cond, hnat]
    split_ifs <;> omega
  rw [sysSbrk, growproc_of_neg hint, Space.deallocuvm]
  generalize (m.sz + (BitVec.ofNat 32 b).toNat) % 2 ^ 32 = newsz
  by_cases hnew : m.sz ≤ newsz
  · rw [if_pos hnew, resize_of_pos hpos.ne']
    exact ⟨m, le_rfl, .inl rfl⟩
  · rw [if_neg hnew]
    by_cases hzero : newsz = 0
    · subst hzero
      exact ⟨⟨m.sz, min m.mapped (pgroundup 0)⟩, le_rfl, .inr ⟨rfl, Nat.min_zero _⟩⟩
    · rw [resize_of_pos hzero]
      exact ⟨_, Nat.le_of_not_le hnew, .inl rfl⟩

end Answers

/-! ## The loop -/

section Search

variable {base n : ℕ} {p : Proc} {fs live : List Extent} {ok : Bool} {fuel nunits prevp : ℕ}

lemma onHeap_ok {α : Type} {x : Alloc α} {a : α} {s : State} (h : x p.heap = .ok (a, s)) :
    onHeap x p = .ok (a, { p with heap := s }) := by rw [onHeap, h]

lemma search_fit {k x : ℕ} (h : nunits ≤ size p.heap.mem x) :
    search ok fuel nunits (k + 1) prevp x p = onHeap (carve nunits prevp x) p := by
  have hget : (get : User Proc) p = .ok (p, p) := rfl
  rw [search, bind_of_ok hget, if_pos h]

lemma search_next {k x : ℕ} (h : ¬ nunits ≤ size p.heap.mem x) (hx : x ≠ p.heap.freep) :
    search ok fuel nunits (k + 1) prevp x p =
      search ok fuel nunits k x (ptr p.heap.mem x) p := by
  have hget : (get : User Proc) p = .ok (p, p) := rfl
  rw [search, bind_of_ok hget, if_neg h, if_neg hx]

lemma search_wrap {k : ℕ} (h : ¬ nunits ≤ size p.heap.mem p.heap.freep) :
    search ok fuel nunits (k + 1) prevp p.heap.freep p =
      (morecore ok fuel nunits >>= fun x =>
        if x = 0 then return 0
        else get >>= fun p => search ok fuel nunits k x (ptr p.heap.mem x)) p := by
  have hget : (get : User Proc) p = .ok (p, p) := rfl
  rw [search, bind_of_ok hget, if_neg h, if_pos rfl]

lemma carve_top {k x r : ℕ} {s s' : State} (h : carve k prevp x s = .ok (r, s')) :
    s'.top = s.top := by
  by_cases hexact : size s.mem x = k
  · rw [carve_eq_of_eq hexact] at h
    cases h
    rfl
  · rw [carve_eq_of_ne hexact rfl] at h
    cases h
    rfl

/-- A search that finds a block without more memory finds it here as well. -/
lemma search_of_refuse (ok : Bool) {k x r : ℕ} {s : State}
    (h : Umalloc.search refuse fuel nunits k prevp x p.heap = .ok (r, s)) (hr : r ≠ 0) :
    search ok fuel nunits k prevp x p = .ok (r, { p with heap := s }) ∧ s.top = p.heap.top := by
  induction k generalizing prevp x with
  | zero => cases h
  | succ k ih =>
    by_cases hfit : nunits ≤ size p.heap.mem x
    · rw [Umalloc.search_fit hfit] at h
      exact ⟨(search_fit hfit).trans (onHeap_ok h), carve_top h⟩
    by_cases hx : x = p.heap.freep
    · subst hx
      rw [Umalloc.search_wrap hfit] at h
      cases h
      exact absurd rfl hr
    · rw [Umalloc.search_next hfit hx] at h
      rw [search_next hfit hx]
      exact ih h

/-- The loop passes nodes that are too small. -/
lemma search_seg (ok : Bool) (fuel : ℕ) {w : List ℕ} {y : ℕ} (hseg : Seg (ptr p.heap.mem) w y)
    (hsmall : ∀ q ∈ w, ¬ nunits ≤ size p.heap.mem q) (hfreep : p.heap.freep ∉ w) (prevp k : ℕ) :
    ∃ prevp', search ok fuel nunits (w.length + k) prevp (w.headD y) p =
      search ok fuel nunits k prevp' y p := by
  induction w generalizing prevp with
  | nil => exact ⟨prevp, by simp⟩
  | cons a w ih =>
    obtain ⟨prevp', hw⟩ := ih hseg.2 (fun q hq => hsmall q (List.mem_cons_of_mem a hq))
      (fun hmem => hfreep (List.mem_cons_of_mem a hmem)) a
    have hne : a ≠ p.heap.freep := fun heq => hfreep (heq ▸ List.mem_cons_self)
    refine ⟨prevp', ?_⟩
    rw [List.length_cons, Nat.add_right_comm, List.headD_cons,
      search_next (hsmall a List.mem_cons_self) hne, hseg.1, hw]

/-- Where no block is large enough the loop comes to `morecore`. -/
lemma search_miss (h : Rep base p.heap fs live) (hnunits : 0 < nunits)
    (hfit : ¬ ∃ e ∈ fs, 8 * nunits ≤ e.len) (k : ℕ) :
    search ok fuel nunits (fs.length + (k + 1)) p.heap.freep (ptr p.heap.mem p.heap.freep) p =
      (morecore ok fuel nunits >>= fun x =>
        if x = 0 then return 0
        else get >>= fun p => search ok fuel nunits k x (ptr p.heap.mem x)) p := by
  obtain ⟨w, ⟨hfirst, hseg⟩, hnot, hlen, hmem⟩ := h.cut_ring
  have hsmall : ∀ q ∈ p.heap.freep :: w, ¬ nunits ≤ size p.heap.mem q := fun q hq =>
    h.small hnunits hfit ((hmem q).1 hq)
  obtain ⟨prevp', hwalk⟩ := search_seg ok fuel hseg
    (fun q hq => hsmall q (List.mem_cons_of_mem _ hq)) hnot p.heap.freep (k + 1)
  rw [hfirst, ← hlen, hwalk, search_wrap (hsmall _ List.mem_cons_self)]

/-- With a block that is large enough the loop takes one, and the kernel is not called. -/
lemma search_of_fit (ok : Bool) (fuel : ℕ) (h : Rep base p.heap fs live) (hn : n + 8 ≤ 2 ^ 32)
    (hfit : ∃ e ∈ fs, 8 * units n ≤ e.len) {k : ℕ} (hk : fs.length + 1 ≤ k) :
    ∃ r s, search ok fuel (units n) k p.heap.freep (ptr p.heap.mem p.heap.freep) p =
        .ok (r, { p with heap := s }) ∧
      s.top = p.heap.top ∧ Took base p.heap s live n r := by
  have hends : Ends (Umalloc.search refuse fuel (units n) k p.heap.freep (ptr p.heap.mem p.heap.freep))
      p.heap (fun r s => Took base p.heap s live n r) (fun _ => False) := h.search_of_fit hn hfit hk
  obtain ⟨r, s, hrun, htook⟩ := hends.exists_ok
  obtain ⟨e, fs', hr, _⟩ := htook.rep
  obtain ⟨hsearch, htop⟩ := search_of_refuse ok hrun (by omega)
  exact ⟨r, s, hsearch, htop, htook⟩

end Search

/-! ## Requests the kernel can answer -/

section Small

variable {base n : ℕ} {p : Proc} {fs live : List Extent} {ok : Bool} {fuel : ℕ}

lemma le_ask (nu : ℕ) : nu ≤ ask nu := by
  unfold ask
  split_ifs <;> omega

lemma morecore_none {nu : ℕ} {m : Space}
    (h : sysSbrk ok (BitVec.ofNat 32 (ask nu * 8)) p.space = (none, m)) :
    morecore ok fuel nu p = .ok (0, { p with space := m }) := by
  have hget : (get : User Proc) p = .ok (p, p) := rfl
  rw [morecore, bind_of_ok hget]
  simp only [h]
  rfl

lemma morecore_fault {nu hp : ℕ} {m : Space}
    (h : sysSbrk ok (BitVec.ofNat 32 (ask nu * 8)) p.space = (some hp, m))
    (hm : m.mapped < hp + 8) : morecore ok fuel nu p = .error .fault := by
  have hget : (get : User Proc) p = .ok (p, p) := rfl
  rw [morecore, bind_of_ok hget]
  simp only [h, if_pos hm]
  rfl

lemma morecore_some {nu hp : ℕ} {m : Space} {s : State}
    (h : sysSbrk ok (BitVec.ofNat 32 (ask nu * 8)) p.space = (some hp, m))
    (hm : hp + 8 ≤ m.mapped) (hfree : free fuel (hp + 8) (received p.heap hp (ask nu)) = .ok ((), s)) :
    morecore ok fuel nu p = .ok (s.freep, ⟨s, m⟩) := by
  have hget : (get : User Proc) p = .ok (p, p) := rfl
  have hset : (set (Proc.mk (received p.heap hp (ask nu)) m) : User PUnit) p =
      .ok (⟨⟩, ⟨received p.heap hp (ask nu), m⟩) := rfl
  rw [morecore, bind_of_ok hget]
  simp only [h, if_neg hm.not_gt]
  rw [bind_of_ok hset, bind_of_ok (onHeap_ok (p := ⟨received p.heap hp (ask nu), m⟩) hfree)]
  rfl

/-- The loop after `morecore` has got memory. -/
lemma search_more {nu k : ℕ} (p' : Proc) (h : Rep base p.heap fs live) (hnu : 0 < nu)
    (hfit : ¬ ∃ e ∈ fs, 8 * nu ≤ e.len) (hmore : morecore ok fuel nu p = .ok (p'.heap.freep, p'))
    (hne : p'.heap.freep ≠ 0) :
    search ok fuel nu (fs.length + (k + 1)) p.heap.freep (ptr p.heap.mem p.heap.freep) p =
      search ok fuel nu k p'.heap.freep (ptr p'.heap.mem p'.heap.freep) p' := by
  have hget : (get : User Proc) p' = .ok (p', p') := rfl
  rw [search_miss h hnu hfit, bind_of_ok hmore, if_neg hne, bind_of_ok hget]

/-- A block with room for `n` bytes has been taken, below the size of the process. -/
structure Served (base : ℕ) (p p' : Proc) (live : List Extent) (n r : ℕ) : Prop where
  block : ∃ e fs, r = e.start + 8 ∧ n + 8 ≤ e.len ∧ Rep base p'.heap fs (live ++ [e])
  top_le : p'.heap.top ≤ p'.space.sz
  sz_lt : p'.space.sz < KERNBASE
  sz_le : p.space.sz ≤ p'.space.sz
  mapped_le : p.space.mapped ≤ p'.space.mapped

/-- The loop for a request that is a positive `int`: there is a block, or the kernel gives memory, or
the result is null and nothing has changed. -/
lemma search_small (ok : Bool) (fuel : ℕ) (h : Rep base p.heap fs live) (htop : p.heap.top ≤ p.space.sz)
    (hsz : p.space.sz < KERNBASE) (hn : n < 2 ^ 31 - 15) {k : ℕ} (hk : 2 ^ 30 ≤ k)
    (hfuel : 2 ^ 29 ≤ fuel) :
    (((∃ e ∈ fs, 8 * units n ≤ e.len) ∨ p.space.Gives ok (ask (units n) * 8)) ∧
      ∃ r p', search ok fuel (units n) k p.heap.freep (ptr p.heap.mem p.heap.freep) p = .ok (r, p') ∧
        Served base p p' live n r) ∨
    (¬ ((∃ e ∈ fs, 8 * units n ≤ e.len) ∨ p.space.Gives ok (ask (units n) * 8)) ∧
      search ok fuel (units n) k p.heap.freep (ptr p.heap.mem p.heap.freep) p = .ok (0, p)) := by
  have hlen := h.layout.length_lt
  by_cases hfit : ∃ e ∈ fs, 8 * units n ≤ e.len
  · obtain ⟨r, s, hsearch, hstop, htook⟩ :=
      search_of_fit ok fuel h (by omega) hfit (k := k) (by omega)
    exact .inl ⟨.inl hfit, r, _, hsearch, htook.rep, hstop.trans_le htop, hsz, le_rfl, le_rfl⟩
  have hask : 0 < ask (units n) ∧ ask (units n) < 2 ^ 28 := by
    unfold ask units
    split_ifs <;> omega
  obtain ⟨j, rfl⟩ : ∃ j, k = fs.length + (j + 1) := ⟨k - fs.length - 1, by omega⟩
  rcases sysSbrk_small ok (m := p.space) (b := ask (units n) * 8) (by omega) (by omega) hsz
    with ⟨hgives, hsbrk⟩ | ⟨hgives, hsbrk⟩
  · have hroom : p.space.sz + ask (units n) * 8 < 2 ^ 31 := hgives.1
    obtain ⟨_, s, hfree, hstop, _, fs', hrep, e, he, hle⟩ :=
      (h.free_grown hask.1 htop (by omega) hfuel).exists_ok
    have hreceived : received p.heap p.space.sz (ask (units n)) =
        { p.heap with
          mem := setSize p.heap.mem p.space.sz (ask (units n)),
          given := p.heap.given ++ [⟨p.space.sz, ask (units n) * 8⟩],
          top := p.space.sz + ask (units n) * 8 } := by
      rw [received, Nat.mod_eq_of_lt (show ask (units n) * 8 < 2 ^ 32 by omega)]
    have hmapped : p.space.sz + 8 ≤ (p.space.grown (ask (units n) * 8)).mapped := by
      have hpage := le_pgroundup (p.space.sz + ask (units n) * 8)
      exact le_max_of_le_right (by omega)
    have hmore := morecore_some hsbrk hmapped (hreceived ▸ hfree)
    have hlen' := hrep.layout.length_lt
    have hunits := le_ask (units n)
    obtain ⟨r, s', hsearch, hstop', htook⟩ :=
      search_of_fit ok fuel (p := ⟨s, p.space.grown (ask (units n) * 8)⟩) hrep
        (show n + 8 ≤ 2 ^ 32 by omega) ⟨e, he, by omega⟩ (k := j) (by omega)
    refine .inl ⟨.inr hgives, r, ⟨s', p.space.grown (ask (units n) * 8)⟩, ?_, htook.rep, ?_,
      hgives.1, Nat.le_add_right _ _, le_max_left _ _⟩
    · rw [search_more ⟨s, _⟩ h (units_pos n) hfit hmore hrep.freep_ne_zero]
      exact hsearch
    · exact (hstop'.trans hstop).le
  · refine .inr ⟨fun h => h.elim hfit hgives, ?_⟩
    rw [search_miss h (units_pos n) hfit, bind_of_ok (morecore_none hsbrk)]
    rfl

end Small

/-! ## Requests that are negative -/

section Large

variable {base : ℕ} {p : Proc} {fs live : List Extent} {ok : Bool} {fuel nu : ℕ}

/-- The loop for a request that is a negative `int`, or 0: the kernel takes all pages away, or the
process faults, or the result is where its memory ended. -/
lemma search_large (ok : Bool) (h : Rep base p.heap fs live) (htop : p.heap.top ≤ p.space.sz)
    (hsz : p.space.sz < KERNBASE) (hnu : 2 ^ 28 ≤ nu) (hnu' : nu ≤ 2 ^ 29) {k : ℕ} (hk : 2 ^ 30 ≤ k)
    (hfuel : 2 ^ 29 ≤ fuel) :
    (∃ m, search ok fuel nu k p.heap.freep (ptr p.heap.mem p.heap.freep) p =
        .ok (0, { p with space := m }) ∧ m.mapped = 0) ∨
      search ok fuel nu k p.heap.freep (ptr p.heap.mem p.heap.freep) p = .error .fault ∨
      ∃ p', search ok fuel nu k p.heap.freep (ptr p.heap.mem p.heap.freep) p =
        .ok (p.space.sz + 8, p') ∧ p'.space.sz ≤ p.space.sz := by
  have hlen := h.layout.length_lt
  have hbase := h.layout.base_le
  simp only [KERNBASE] at hsz
  have hask : ask nu = nu := if_neg (by omega)
  have hfit : ¬ ∃ e ∈ fs, 8 * nu ≤ e.len := by
    rintro ⟨e, he, hle⟩
    have hstop := (h.layout.bounds (List.mem_append_left live he)).2
    unfold stop at hstop
    omega
  obtain ⟨j, rfl⟩ : ∃ j, k = fs.length + (j + 1) := ⟨k - fs.length - 1, by omega⟩
  obtain ⟨m, hle, hsbrk | ⟨hsbrk, hzero⟩⟩ :=
    sysSbrk_large ok (m := p.space) (b := ask nu * 8) (by omega) (by omega) (by omega)
  · rcases Nat.lt_or_ge m.mapped (p.space.sz + 8) with hfault | hmapped
    · refine .inr (.inl ?_)
      rw [search_miss h (by omega) hfit]
      show morecore ok fuel nu p >>= _ = _
      rw [morecore_fault hsbrk hfault]
      rfl
    · obtain ⟨t, t', hfree, hne, hsearch⟩ := h.search_behind (k := j) htop hsz hnu hnu' hfuel (by omega)
      have hmore := morecore_some hsbrk hmapped (hask.symm ▸ hfree)
      refine .inr (.inr ⟨⟨t', m⟩, ?_, hle⟩)
      rw [search_more ⟨t, m⟩ h (by omega) hfit hmore hne]
      exact (search_of_refuse ok (p := ⟨t, m⟩) hsearch (by omega)).1
  · refine .inl ⟨m, ?_, hzero⟩
    rw [search_miss h (by omega) hfit, bind_of_ok (morecore_none hsbrk)]
    rfl

end Large

/-! ## `malloc` -/

section Malloc

variable {base n : ℕ} {p : Proc} {live : List Extent} {ok : Bool} {fuel : ℕ}

/-- The allocator and the kernel agree on the memory of the process, and its live blocks are `live`. -/
structure Proc.Sound (base : ℕ) (p : Proc) (live : List Extent) : Prop where
  heap : Heap base p.heap live
  top_le : p.heap.top ≤ p.space.sz
  sz_lt : p.space.sz < KERNBASE
  mapped : p.space.mapped = pgroundup p.space.sz

/-- There is no free block: `malloc` has not been called, or `base` points to itself. -/
def NoFree (base : ℕ) (s : State) : Prop := s.freep = 0 ∨ ptr s.mem base = base

/-- What is asked of `malloc(n)`: it returns, and the result is null or points to `n` bytes below the
size of the process that overlap no live block; and the memory of the process does not get smaller. -/
def Safe (base fuel : ℕ) (ok : Bool) (live : List Extent) (p : Proc) (n : ℕ) : Prop :=
  ∃ r p', malloc base ok fuel n p = .ok (r, p') ∧
    (r = 0 ∨ r + n ≤ p'.space.sz ∧ ∀ e ∈ live, Apart ⟨r, n⟩ e) ∧
    p.space.sz ≤ p'.space.sz ∧ p.space.mapped ≤ p'.space.mapped

lemma noFree_iff {s : State} {fs : List Extent} (h : Rep base s fs live) :
    NoFree base s ↔ fs = [] := by
  have hptr : ptr s.mem base = (fs.map start).headD base := h.holds.ring.1
  unfold NoFree
  rw [hptr]
  cases fs with
  | nil => simp
  | cons e fs =>
    have hle := (h.layout.bounds (e := e) (by simp)).1
    have hne : e.start ≠ base := by omega
    simp [h.freep_ne_zero, hne]

/-- The first step of `malloc`. -/
lemma malloc_eq (h : Heap base p.heap live) (ok : Bool) (fuel n : ℕ) :
    ∃ s fs, Rep base s fs live ∧ s.top = p.heap.top ∧ (NoFree base p.heap ↔ fs = []) ∧
      malloc base ok fuel n p =
        search ok fuel (units n) fuel s.freep (ptr s.mem s.freep) { p with heap := s } := by
  have hrun : ∀ {s : State}, initialise base p.heap = .ok ((), s) → malloc base ok fuel n p =
      search ok fuel (units n) fuel s.freep (ptr s.mem s.freep) { p with heap := s } := by
    intro s hs
    rw [malloc, bind_of_ok (onHeap_ok hs)]
    rfl
  have hget : (get : Alloc State) p.heap = .ok (p.heap, p.heap) := rfl
  rcases h with ⟨hidle, rfl⟩ | ⟨fs, hrep⟩
  · refine ⟨_, [], hidle.rep, rfl, by simp [NoFree, hidle.freep], hrun ?_⟩
    rw [initialise, bind_of_ok hget, if_pos hidle.freep]
    rfl
  · refine ⟨p.heap, fs, hrep, rfl, noFree_iff hrep, hrun ?_⟩
    rw [initialise, bind_of_ok hget, if_neg hrep.freep_ne_zero]
    rfl

/-- The bytes of a block that has been taken lie below the size, apart from the other blocks. -/
lemma Served.apart {p' : Proc} {r : ℕ} (h : Served base p p' live n r) :
    r + n ≤ p'.space.sz ∧ ∀ e ∈ live, Apart ⟨r, n⟩ e := by
  obtain ⟨b, fs, rfl, hlen, hrep⟩ := h.block
  have hstop := (hrep.layout.bounds (e := b) (by simp)).2
  have htop := h.top_le
  have hpair := (List.pairwise_append.1 hrep.layout.pairwise_apart).2.1
  unfold stop at hstop
  refine ⟨by omega, fun e he => ?_⟩
  have hapart := (List.pairwise_append.1 hpair).2.2 e he b List.mem_cons_self
  unfold Apart stop at hapart ⊢
  simp only
  omega

lemma Served.ne_zero {p' : Proc} {r : ℕ} (h : Served base p p' live n r) : r ≠ 0 := by
  obtain ⟨b, fs, rfl, _⟩ := h.block
  exact Nat.succ_ne_zero _

/-- Below `2 ^ 31 - 15` bytes the request is a positive `int`. -/
lemma safe_of_small (h : p.Sound base live) (hfuel : 2 ^ 30 ≤ fuel) (hn : n < 2 ^ 31 - 15) :
    Safe base fuel ok live p n := by
  obtain ⟨s, fs, hrep, hstop, _, hmalloc⟩ := malloc_eq h.heap ok fuel n
  rcases search_small ok fuel (p := ⟨s, p.space⟩) hrep (hstop.trans_le h.top_le)
    h.sz_lt hn hfuel (by omega) with ⟨_, r, p', hsearch, hserved⟩ | ⟨_, hsearch⟩
  · exact ⟨r, p', hmalloc.trans hsearch, .inr hserved.apart, hserved.sz_le, hserved.mapped_le⟩
  · exact ⟨0, _, hmalloc.trans hsearch, .inl rfl, le_rfl, le_rfl⟩

/-- Up to `2 ^ 32 - 8` bytes it is negative, or 0. -/
lemma not_safe_of_large (h : p.Sound base live) (hfuel : 2 ^ 30 ≤ fuel) (hn : 2 ^ 31 - 15 ≤ n)
    (hn' : n < 2 ^ 32 - 7) : ¬ Safe base fuel ok live p n := by
  obtain ⟨s, fs, hrep, hstop, _, hmalloc⟩ := malloc_eq h.heap ok fuel n
  have hnu : 2 ^ 28 ≤ units n ∧ units n ≤ 2 ^ 29 := by
    unfold units
    omega
  have htop : s.top ≤ p.space.sz := hstop.trans_le h.top_le
  rintro ⟨r, p', hrun, hr, hsz, hmapped⟩
  rw [hmalloc] at hrun
  rcases search_large ok (p := ⟨s, p.space⟩) hrep htop h.sz_lt hnu.1 hnu.2 hfuel
    (show 2 ^ 29 ≤ fuel by omega) with ⟨m, hsearch, hzero⟩ | hsearch | ⟨q, hsearch, hle⟩
  · -- the pages are gone
    obtain ⟨rfl, rfl⟩ := Prod.mk.inj (Except.ok.inj (hsearch.symm.trans hrun))
    have hpages := h.mapped.symm.trans_le hmapped
    have hbase := hrep.layout.base_le
    have hround := le_pgroundup p.space.sz
    simp only [hzero] at hpages
    omega
  · cases hsearch.symm.trans hrun
  · obtain ⟨rfl, rfl⟩ := Prod.mk.inj (Except.ok.inj (hsearch.symm.trans hrun))
    simp only at hr hle
    omega

/-- Above that the number of headers wraps to one. -/
lemma safe_iff_of_wrap (h : p.Sound base live) (hfuel : 2 ^ 30 ≤ fuel) (hn : 2 ^ 32 - 7 ≤ n)
    (hn' : n < 2 ^ 32) :
    Safe base fuel ok live p n ↔ NoFree base p.heap ∧ ¬ p.space.Gives ok 32768 := by
  obtain ⟨s, fs, hrep, hstop, hfree, hmalloc⟩ := malloc_eq h.heap ok fuel n
  have hunits : units n = units 0 := by
    unfold units
    omega
  have hfit : (∃ e ∈ fs, 8 * units 0 ≤ e.len) ↔ fs ≠ [] := by
    constructor
    · rintro ⟨e, he, _⟩
      exact List.ne_nil_of_mem he
    · intro hne
      obtain ⟨e, he⟩ := List.exists_mem_of_ne_nil fs hne
      exact ⟨e, he, hrep.layout.eight_le e (List.mem_append_left live he)⟩
  rw [hunits] at hmalloc
  rcases search_small ok fuel (p := ⟨s, p.space⟩) (n := 0) hrep
    (hstop.trans_le h.top_le) h.sz_lt (by decide) hfuel (by omega)
    with ⟨hsome, r, p', hsearch, hserved⟩ | ⟨hnone, hsearch⟩
  · -- a block of one header is no room for `n` bytes
    refine iff_of_false ?_ ?_
    · rintro ⟨r', q, hrun, hr, _⟩
      obtain ⟨rfl, rfl⟩ := Prod.mk.inj (Except.ok.inj ((hmalloc.trans hsearch).symm.trans hrun))
      have hsz := hserved.sz_lt
      have hne := hserved.ne_zero
      simp only [KERNBASE] at hsz
      omega
    · rintro ⟨hno, hgives⟩
      exact hsome.elim (fun hsome => hfit.1 hsome (hfree.1 hno)) hgives
  · refine iff_of_true ⟨0, _, hmalloc.trans hsearch, .inl rfl, le_rfl, le_rfl⟩ ⟨?_, ?_⟩
    · rw [hfree]
      by_contra hne
      exact hnone (.inl (hfit.2 hne))
    · exact fun hgives => hnone (.inr hgives)

/-- `malloc` is safe exactly for requests below `2 ^ 31 - 15` bytes; and for the last seven ones below
`2 ^ 32` where it has to return null. -/
theorem malloc_safe_iff (base fuel : ℕ) (hfuel : 2 ^ 30 ≤ fuel) (ok : Bool) (live : List Extent)
    (p : Proc) (h : p.Sound base live) (n : ℕ) (hn : n < 2 ^ 32) :
    Safe base fuel ok live p n ↔
      n < 2 ^ 31 - 15 ∨
        2 ^ 32 - 7 ≤ n ∧ NoFree base p.heap ∧ ¬ p.space.Gives ok 32768 := by
  rcases Nat.lt_or_ge n (2 ^ 31 - 15) with hsmall | hlarge
  · exact iff_of_true (safe_of_small h hfuel hsmall) (.inl hsmall)
  rcases Nat.lt_or_ge n (2 ^ 32 - 7) with hlt | hwrap
  · refine iff_of_false (not_safe_of_large h hfuel hlarge hlt) ?_
    rintro (hsmall | ⟨hwrap, _⟩) <;> omega
  · rw [safe_iff_of_wrap h hfuel hwrap hn]
    constructor
    · exact fun hnull => .inr ⟨hwrap, hnull⟩
    · rintro (hsmall | ⟨_, hnull⟩)
      · omega
      · exact hnull

/-- A process that has not called `malloc`, with 12388 bytes. -/
abbrev idle : Proc := ⟨⟨fun _ => 0, 0, [], 12388⟩, ⟨12388, 16384⟩⟩

lemma idle_sound : idle.Sound 4096 [] :=
  ⟨.inl ⟨⟨by decide, rfl, rfl, by decide, by decide⟩, rfl⟩, by decide, by decide, by decide⟩

theorem malloc_safe_iff_hundred : Safe 4096 (2 ^ 30) true [] idle 100 :=
  (malloc_safe_iff 4096 (2 ^ 30) le_rfl true [] idle idle_sound 100 (by decide)).2
    (.inl (by decide))

/-- It asks for `2 ^ 32 - 16` bytes.  The kernel takes eight bytes away and reports success, and the
process gets a pointer behind the end of its memory. -/
theorem malloc_shrinks :
    (malloc 4096 true (2 ^ 30) 0xfffffff0 idle).toOption.map (fun a => (a.1, a.2.space)) =
      some (12396, ⟨12380, 16384⟩) ∧ ¬ Safe 4096 (2 ^ 30) true [] idle 0xfffffff0 :=
  ⟨by decide +kernel, not_safe_of_large idle_sound le_rfl (by decide) (by decide)⟩

end Malloc

end Kernel

end Xv7.Umalloc
