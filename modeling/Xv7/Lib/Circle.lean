import Mathlib

/-!
# Circular singly linked lists

`Seg f l y` says that following the pointers `f` from the first node of `l` visits the nodes of `l` in
order and then comes to `y`.  A ring is a list of nodes that comes back to its first one; it can be
cut at any node.  A walk along a ring that stops at one of its nodes ends there.
-/

namespace Circle

variable {α : Type*} {f g : α → α} {l l1 l2 : List α} {a x y z : α}

/-- The pointers follow the list, and then lead to `y`. -/
def Seg (f : α → α) : List α → α → Prop
  | [], _ => True
  | a :: l, y => f a = l.headD y ∧ Seg f l y

lemma seg_append : Seg f (l1 ++ l2) y ↔ Seg f l1 (l2.headD y) ∧ Seg f l2 y := by
  induction l1 with
  | nil => simp [Seg]
  | cons a l1 ih =>
    have hhead : (l1 ++ l2).headD y = l1.headD (l2.headD y) := by cases l1 <;> rfl
    simp only [List.cons_append, Seg, ih, hhead, and_assoc]

lemma Seg.congr (h : Seg f l y) (hfg : ∀ x ∈ l, g x = f x) : Seg g l y := by
  induction l with
  | nil => trivial
  | cons a l ih =>
    exact ⟨(hfg a List.mem_cons_self).trans h.1, ih h.2 fun x hx => hfg x (List.mem_cons_of_mem a hx)⟩

/-- The pointer of the last node leads out of the list. -/
lemma Seg.getLastD (h : Seg f (x :: l) y) : f (l.getLastD x) = y := by
  induction l generalizing x with
  | nil => exact h.1
  | cons a l ih =>
    rw [List.getLastD_cons]
    exact ih h.2

/-- The nodes come back to the first one. -/
def Ring (f : α → α) : List α → Prop
  | [] => False
  | a :: l => Seg f (a :: l) a

lemma Ring.congr (h : Ring f l) (hfg : ∀ x ∈ l, g x = f x) : Ring g l := by
  cases l with
  | nil => exact h
  | cons a l => exact Seg.congr h hfg

/-- A ring can be cut at any node. -/
lemma Ring.rotate (h : Ring f (l1 ++ x :: l2)) : Ring f (x :: (l2 ++ l1)) := by
  cases l1 with
  | nil => simpa using h
  | cons a l1 =>
    obtain ⟨h1, h2⟩ := seg_append.1 (show Seg f ((a :: l1) ++ x :: l2) a from h)
    exact seg_append.2 ⟨h2, h1⟩

lemma Seg.map_eq (h : Seg f (a :: l) y) : (a :: l).map f = l ++ [y] := by
  induction l generalizing a with
  | nil => rw [List.map_cons, List.map_nil, show f a = y from h.1, List.nil_append]
  | cons b l ih => rw [List.map_cons, ih h.2, show f a = b from h.1, List.cons_append]

/-- The pointers permute the nodes of a ring. -/
lemma Ring.map_perm (h : Ring f l) : (l.map f).Perm l := by
  cases l with
  | nil => exact .refl _
  | cons a l =>
    rw [Seg.map_eq h]
    exact List.perm_append_singleton a l

lemma Ring.map_mem (h : Ring f l) (hx : x ∈ l) : f x ∈ l :=
  h.map_perm.subset (List.mem_map_of_mem hx)

/-- On a ring without repetitions every node has one predecessor. -/
lemma Ring.map_inj (h : Ring f l) (hl : l.Nodup) (hx : x ∈ l) (hz : z ∈ l) (hxz : f x = f z) :
    x = z :=
  List.inj_on_of_nodup_map (h.map_perm.nodup_iff.2 hl) hx hz hxz

/-! ## Walks -/

/-- The first node behind `x` with a property, where `x` itself is the last one. -/
lemma Ring.first {P : α → Prop} [DecidablePred P] (h : Ring f (x :: l)) (hP : ∃ q ∈ x :: l, P q) :
    ∃ l' q, P q ∧ (∀ y ∈ l', ¬ P y) ∧ Seg f (x :: l') q ∧ l' ⊆ l ∧ l'.length ≤ l.length := by
  obtain ⟨hx, hl⟩ : f x = l.headD x ∧ Seg f l x := h
  have hsome : ((l ++ [x]).find? fun q => decide (P q)).isSome := by
    obtain ⟨q, hq, hPq⟩ := hP
    exact List.find?_isSome.2
      ⟨q, (List.perm_append_singleton x l).mem_iff.2 hq, decide_eq_true hPq⟩
  obtain ⟨q, hfind⟩ := Option.isSome_iff_exists.1 hsome
  obtain ⟨hq, a, b, hab, hno⟩ := List.find?_eq_some_iff_append.1 hfind
  have hq : P q := of_decide_eq_true hq
  have hno : ∀ y ∈ a, ¬ P y := fun y hy => by simpa using hno y hy
  rcases List.eq_nil_or_concat' b with rfl | ⟨b, z, rfl⟩
  · obtain ⟨rfl, hxq⟩ := List.append_inj' hab rfl
    obtain rfl : x = q := (List.cons.inj hxq).1
    exact ⟨l, x, hq, hno, ⟨hx, hl⟩, List.Subset.refl l, le_rfl⟩
  · rw [← List.cons_append, ← List.append_assoc] at hab
    obtain ⟨rfl, _⟩ := List.append_inj' hab rfl
    have hhead : (a ++ q :: b).headD x = a.headD q := by cases a <;> rfl
    exact ⟨a, q, hq, hno, ⟨hx.trans hhead, (seg_append.1 hl).1⟩, List.subset_append_left a _,
      by simp⟩

/-- Walk along the pointers to a node where `stop` holds. -/
def find (f : α → α) (stop : α → Bool) : ℕ → α → Option α
  | 0, _ => none
  | n + 1, x => if stop x then some x else find f stop n (f x)

/-- The walk passes the nodes of a list where it does not stop. -/
lemma find_seg {stop : α → Bool} (h : Seg f l y) (hno : ∀ x ∈ l, stop x = false) (n : ℕ) :
    find f stop (l.length + n) (l.headD y) = find f stop n y := by
  induction l with
  | nil => simp
  | cons a l ih =>
    have ha : stop a = false := hno a List.mem_cons_self
    rw [List.length_cons, Nat.add_right_comm, List.headD_cons, find, ha, if_neg Bool.false_ne_true,
      h.1, ih h.2 fun x hx => hno x (List.mem_cons_of_mem a hx)]

/-- On a ring the walk finds the node where it stops. -/
lemma Ring.find_eq {stop : α → Bool} (h : Ring f l) (hx : x ∈ l) (hz : z ∈ l)
    (hstop : ∀ y ∈ l, stop y = true ↔ y = z) {n : ℕ} (hn : l.length ≤ n) :
    find f stop n x = some z := by
  obtain ⟨l1, l2, rfl⟩ := List.append_of_mem hx
  have hring := h.rotate
  have hmem : z ∈ x :: (l2 ++ l1) := by
    simp only [List.mem_append, List.mem_cons] at hz ⊢
    tauto
  -- cut the ring at `x`; the walk passes what stands before the first `z` from there
  obtain ⟨u, v, huv, hu⟩ := List.eq_append_cons_of_mem hmem
  have hseg : Seg f (u ++ z :: v) x := huv ▸ hring
  have hhead : u.headD z = x := by
    cases u with
    | nil => exact (List.cons.inj huv).1.symm
    | cons b u => exact (List.cons.inj huv).1.symm
  have hno : ∀ y ∈ u, stop y = false := by
    intro y hy
    have hyl : y ∈ l1 ++ x :: l2 := by
      have hy' : y ∈ x :: (l2 ++ l1) := huv ▸ List.mem_append_left _ hy
      simp only [List.mem_append, List.mem_cons] at hy' ⊢
      tauto
    refine Bool.eq_false_iff.2 fun hs => hu ?_
    rwa [← (hstop y hyl).1 hs]
  have hlen : u.length + 1 ≤ n := by
    have hlen := congrArg List.length huv
    simp only [List.length_append, List.length_cons] at hlen hn
    omega
  obtain ⟨k, rfl⟩ := Nat.exists_eq_add_of_le hlen
  have hwalk := find_seg (seg_append.1 hseg).1 hno (1 + k)
  rw [List.headD_cons, hhead, ← Nat.add_assoc] at hwalk
  rw [hwalk, Nat.add_comm, find, if_pos ((hstop z hz).2 rfl)]

end Circle
