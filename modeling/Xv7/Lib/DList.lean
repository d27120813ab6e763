import Mathlib

/-!
# Doubly linked rings

The nodes of a ring are a head, `none`, and elements; `next` and `prev` are the pointers of a node.
`Linked` says that the pointers follow a list: from the head through its elements and back to the
head, and the same backwards.  Pushing an element in front and unlinking one keep this, each with
the assignments that C code makes, and a walk along the pointers finds what it looks for in the list
or in its reverse.

Each direction is a `Path`; the two operations change one pointer of it, the one of its last node.
-/

namespace DList

open Function (update update_of_ne update_self)

variable {α : Type*}

/-- The pointers. -/
structure Links (α : Type*) where
  next : Option α → Option α
  prev : Option α → Option α

/-- Following the pointers from a node gives a list, and then another node. -/
def Path (f : Option α → Option α) : Option α → List α → Option α → Prop
  | x, [], y => f x = y
  | x, a :: l, y => f x = some a ∧ Path f (some a) l y

/-- The ring holds the elements of a list, in order. -/
structure Linked (L : Links α) (l : List α) : Prop where
  nodup : l.Nodup
  next : Path L.next none l none
  prev : Path L.prev none l.reverse none

/-- Walk along pointers until an element has a property; the head ends the walk. -/
def scan (f : Option α → Option α) (p : α → Bool) : ℕ → Option α → Option α
  | 0, _ => none
  | _ + 1, none => none
  | k + 1, some a => if p a then some a else scan f p k (f (some a))

lemma scan_eq_some {f : Option α → Option α} {p : α → Bool} {k : ℕ} {x : Option α} {a : α}
    (h : scan f p k x = some a) : p a := by
  induction k generalizing x with
  | zero => exact absurd h (by simp [scan])
  | succ k ih =>
    cases x with
    | none => exact absurd h (by simp [scan])
    | some b =>
      rw [scan] at h
      split_ifs at h with hb
      · exact Option.some.inj h ▸ hb
      · exact ih h

section Path

variable {f g : Option α → Option α} {x y z : Option α} {a : α} {l l1 l2 : List α}

/-- The last node of a path. -/
def lastNode (x : Option α) (l : List α) : Option α := (l.getLast?.map some).getD x

@[simp] lemma lastNode_cons : lastNode x (a :: l) = lastNode (some a) l := by
  cases l with
  | nil => rfl
  | cons b l => simp [lastNode, List.getLast?_cons]

lemma lastNode_mem : lastNode x l = x ∨ ∃ a ∈ l, lastNode x l = some a := by
  induction l generalizing x with
  | nil => exact .inl rfl
  | cons a l ih =>
    rw [lastNode_cons]
    rcases ih (x := some a) with h | ⟨b, hb, h⟩
    · exact .inr ⟨a, List.mem_cons_self, h⟩
    · exact .inr ⟨b, List.mem_cons_of_mem a hb, h⟩

/-- The pointer of the first node of a path. -/
lemma Path.first (h : Path f x l none) : f x = lastNode none l.reverse := by
  cases l with
  | nil => exact h
  | cons a l =>
    rw [h.1, List.reverse_cons, lastNode, List.getLast?_concat]
    rfl

lemma path_append : Path f x (l1 ++ a :: l2) y ↔ Path f x l1 (some a) ∧ Path f (some a) l2 y := by
  induction l1 generalizing x with
  | nil => rfl
  | cons b l ih => simp only [List.cons_append, Path, ih, and_assoc]

/-- Two paths are joined by the node where the first one ends. -/
lemma Path.trans (h1 : Path f x l1 (f y)) (h2 : Path f y l2 z) : Path f x (l1 ++ l2) z := by
  cases l2 with
  | nil =>
    rw [List.append_nil, ← show f y = z from h2]
    exact h1
  | cons a l =>
    exact path_append.mpr ⟨h2.1 ▸ h1, h2.2⟩

/-- A path reads the pointers of its nodes. -/
lemma Path.congr (h : Path f x l y) (hx : g x = f x) (hl : ∀ a ∈ l, g (some a) = f (some a)) :
    Path g x l y := by
  induction l generalizing x with
  | nil => exact hx.trans h
  | cons a l ih =>
    exact ⟨hx.trans h.1, ih h.2 (hl a List.mem_cons_self)
      fun b hb => hl b (List.mem_cons_of_mem a hb)⟩

lemma Path.scan_eq (h : Path f x l none) {p : α → Bool} {k : ℕ} (hk : l.length < k) :
    scan f p k (f x) = l.find? p := by
  induction l generalizing x k with
  | nil =>
    obtain ⟨k, rfl⟩ := Nat.exists_eq_succ_of_ne_zero (Nat.ne_zero_of_lt hk)
    rw [show f x = none from h]
    rfl
  | cons a l ih =>
    obtain ⟨k, rfl⟩ := Nat.exists_eq_succ_of_ne_zero (Nat.ne_zero_of_lt hk)
    rw [h.1, scan, List.find?_cons]
    cases p a with
    | true => rfl
    | false => exact ih h.2 (by simpa using hk)

lemma nodup_none_cons (h : l.Nodup) : ((none : Option α) :: l.map some).Nodup := by
  rw [List.nodup_cons]
  exact ⟨by simp, h.map (Option.some_injective α)⟩

variable [DecidableEq α]

/-- A new pointer in the last node of a path leads it to another end. -/
lemma Path.redirect (h : Path f x l y) (hnodup : (x :: l.map some).Nodup) :
    Path (update f (lastNode x l) z) x l z := by
  induction l generalizing x with
  | nil => exact update_self x z f
  | cons a l ih =>
    rw [List.map_cons, List.nodup_cons] at hnodup
    rw [lastNode_cons]
    refine ⟨?_, ih h.2 hnodup.2⟩
    rw [update_of_ne, h.1]
    intro heq
    refine hnodup.1 ?_
    rcases lastNode_mem (x := some a) (l := l) with hlast | ⟨b, hb, hlast⟩
    · rw [heq, hlast]
      exact List.mem_cons_self
    · rw [heq, hlast]
      exact List.mem_cons_of_mem _ (List.mem_map_of_mem hb)

/-- One direction of a ring without an element: the node before it gets its pointer. -/
lemma Path.unlink (h : Path f none (l1 ++ a :: l2) none) (hnodup : (l1 ++ a :: l2).Nodup) :
    Path (update f (lastNode none l1) (f (some a))) none (l1 ++ l2) none := by
  obtain ⟨h1, h2⟩ := path_append.mp h
  obtain ⟨hn1, hn2, hdisj⟩ := List.nodup_append.mp hnodup
  have hother : ∀ b ∈ a :: l2, some b ≠ lastNode none l1 := by
    intro b hb heq
    rcases lastNode_mem (x := none) (l := l1) with hlast | ⟨c, hc, hlast⟩
    · rw [hlast] at heq
      exact absurd heq (by simp)
    · rw [hlast, Option.some.injEq] at heq
      exact hdisj c hc b hb heq.symm
  have hsame : ∀ b ∈ a :: l2, update f (lastNode none l1) (f (some a)) (some b) =
      f (some b) := fun b hb => update_of_ne (hother b hb) _ _
  refine Path.trans (y := some a) ?_ (h2.congr (hsame a List.mem_cons_self) fun b hb =>
    hsame b (List.mem_cons_of_mem a hb))
  rw [hsame a List.mem_cons_self]
  exact h1.redirect (nodup_none_cons hn1)

end Path

/-! ## The operations -/

/-- An empty ring. -/
def empty : Links α := ⟨fun _ => none, fun _ => none⟩

lemma linked_empty : Linked (empty : Links α) [] := ⟨List.nodup_nil, rfl, rfl⟩

section Ops

variable [DecidableEq α] {L : Links α} {a : α} {l : List α}

/-- `a->next = head.next; a->prev = &head; head.next->prev = a; head.next = a`. -/
def push (L : Links α) (a : α) : Links α :=
  let next := Function.update L.next (some a) (L.next none)
  let prev := Function.update L.prev (some a) none
  ⟨Function.update next none (some a), Function.update prev (next none) (some a)⟩

/-- `a->next->prev = a->prev; a->prev->next = a->next`. -/
def unlink (L : Links α) (a : α) : Links α :=
  let prev := Function.update L.prev (L.next (some a)) (L.prev (some a))
  ⟨Function.update L.next (prev (some a)) (L.next (some a)), prev⟩

lemma Linked.push (h : Linked L l) (ha : a ∉ l) : Linked (push L a) (a :: l) := by
  have hfirst : L.next none = lastNode none l.reverse := h.next.first
  have hne : some a ≠ lastNode none l.reverse := by
    intro heq
    rcases lastNode_mem (x := none) (l := l.reverse) with hlast | ⟨b, hb, hlast⟩
    · rw [hlast] at heq
      exact absurd heq (by simp)
    · rw [hlast, Option.some.injEq] at heq
      exact ha (List.mem_reverse.mp (heq ▸ hb))
  unfold DList.push
  dsimp only
  rw [update_of_ne (by simp : (none : Option α) ≠ some a)]
  refine ⟨List.nodup_cons.mpr ⟨ha, h.nodup⟩, ⟨?_, ?_⟩, ?_⟩
  · simp
  · -- from the new element the old list is as far away as it was from the head
    have hold : Path (update L.next (some a) (L.next none)) (some a) l none := by
      have hcopy : ∀ {l}, Path L.next none l none → (∀ b ∈ l, b ≠ a) →
          Path (update L.next (some a) (L.next none)) (some a) l none := by
        intro l hl hb
        cases l with
        | nil => exact (update_self _ _ _).trans hl
        | cons b l =>
          refine ⟨(update_self _ _ _).trans hl.1, hl.2.congr ?_ fun c hc => ?_⟩
          · exact update_of_ne (by simpa using hb b List.mem_cons_self) _ _
          · exact update_of_ne (by simpa using hb c (List.mem_cons_of_mem b hc)) _ _
      exact hcopy h.next fun b hb heq => ha (heq ▸ hb)
    exact hold.congr (by simp) fun b _ => by simp
  · rw [List.reverse_cons, path_append, hfirst]
    constructor
    · have hprev : Path (update L.prev (some a) none) none l.reverse none :=
        h.prev.congr (update_of_ne (by simp) _ _) fun b hb =>
          update_of_ne (by
            rintro heq
            exact ha (Option.some.inj heq ▸ List.mem_reverse.mp hb)) _ _
      exact hprev.redirect (nodup_none_cons (List.nodup_reverse.mpr h.nodup))
    · exact (update_of_ne hne _ _).trans (update_self _ _ _)

lemma Linked.unlink (h : Linked L l) (ha : a ∈ l) : Linked (unlink L a) (l.erase a) := by
  obtain ⟨l1, l2, rfl⟩ := List.append_of_mem ha
  have hnot : a ∉ l1 := fun hmem => by
    have := (List.nodup_append.mp h.nodup).2.2 a hmem a List.mem_cons_self
    exact this rfl
  have hrev : (l1 ++ a :: l2).reverse = l2.reverse ++ a :: l1.reverse := by simp
  have hprev := h.prev
  have hnext := h.next
  rw [hrev] at hprev
  have hp : L.prev (some a) = lastNode none l1 := by
    rw [(path_append.mp hprev).2.first, List.reverse_reverse]
  have hn : L.next (some a) = lastNode none l2.reverse := (path_append.mp hnext).2.first
  have hsame : update L.prev (L.next (some a)) (L.prev (some a)) (some a) =
      L.prev (some a) := by
    by_cases heq : some a = L.next (some a)
    · rw [← heq, update_self]
    · exact update_of_ne heq _ _
  have herase : (l1 ++ a :: l2).erase a = l1 ++ l2 := by
    rw [List.erase_append_right _ hnot, List.erase_cons_head]
  unfold DList.unlink
  dsimp only
  rw [herase, hsame]
  refine ⟨herase ▸ h.nodup.erase a, ?_, ?_⟩
  · rw [hp]
    exact hnext.unlink h.nodup
  · rw [hn, List.reverse_append]
    exact hprev.unlink (hrev ▸ List.nodup_reverse.mpr h.nodup)

end Ops

end DList
