import Mathlib

/-!
# Ring buffers with wrapping counters

A ring buffer of `N` places has two counters that only go up, modulo `M`: the number of elements
taken out and the number put in.  An element is kept at its number modulo `N`.  Where `N` divides
`M` and is smaller, the buffer is full iff the counters are `N` apart and empty iff they are equal,
and then it is a queue (`Holds`).
-/

namespace Ring

variable {α : Type*} {N M : ℕ}

/-- The places and the two counters. -/
structure Buffer (α : Type*) where
  data : ℕ → α
  nread : ℕ
  nwrite : ℕ

/-- The counters are `N` apart. -/
def Full (N M : ℕ) (b : Buffer α) : Prop := b.nwrite = (b.nread + N) % M

/-- The counters are equal. -/
def Empty (b : Buffer α) : Prop := b.nread = b.nwrite

instance (b : Buffer α) : Decidable (Full N M b) := inferInstanceAs (Decidable (_ = _))

instance (b : Buffer α) : Decidable (Empty b) := inferInstanceAs (Decidable (_ = _))

/-- Put an element in. -/
def push (N M : ℕ) (b : Buffer α) (a : α) : Buffer α :=
  { b with data := Function.update b.data (b.nwrite % N) a, nwrite := (b.nwrite + 1) % M }

/-- The element that is taken out next. -/
def front (N : ℕ) (b : Buffer α) : α := b.data (b.nread % N)

/-- Take an element out. -/
def pop (M : ℕ) (b : Buffer α) : Buffer α := { b with nread := (b.nread + 1) % M }

/-- The buffer holds the elements of a queue. -/
structure Holds (N M : ℕ) (b : Buffer α) (q : List α) : Prop where
  nread_lt : b.nread < M
  nwrite : b.nwrite = (b.nread + q.length) % M
  le : q.length ≤ N
  data : ∀ i a, q[i]? = some a → b.data ((b.nread + i) % N) = a

lemma holds_nil (b : Buffer α) (hlt : b.nread < M) (h : b.nwrite = b.nread) :
    Holds N M b ([] : List α) where
  nread_lt := hlt
  nwrite := by rw [h, List.length_nil, Nat.add_zero, Nat.mod_eq_of_lt hlt]
  le := Nat.zero_le _
  data := fun i a h => absurd h (by simp)

/-- Two sums of a counter and less than `M` differ. -/
lemma add_mod_inj {r m n : ℕ} (hm : m < M) (hn : n < M) (h : (r + m) % M = (r + n) % M) :
    m = n := by
  have h' : m ≡ n [MOD M] := Nat.ModEq.add_left_cancel' r h
  exact h'.eq_of_lt_of_lt hm hn

section

variable {b : Buffer α} {q : List α}

lemma Holds.full_iff (h : Holds N M b q) (hNM : N < M) : Full N M b ↔ q.length = N := by
  rw [Full, h.nwrite]
  refine ⟨fun heq => add_mod_inj (h.le.trans_lt hNM) hNM heq, fun heq => by rw [heq]⟩

lemma Holds.empty_iff (h : Holds N M b q) (hNM : N < M) : Empty b ↔ q = [] := by
  rw [Empty, h.nwrite, ← List.length_eq_zero_iff]
  constructor
  · intro heq
    refine (add_mod_inj (M := M) (r := b.nread) (by omega) (h.le.trans_lt hNM) ?_).symm
    rw [← heq, Nat.add_zero, Nat.mod_eq_of_lt h.nread_lt]
  · intro heq
    rw [heq, Nat.add_zero, Nat.mod_eq_of_lt h.nread_lt]

/-- The distance of the counters. -/
lemma Holds.sub_eq (h : Holds N M b q) (hNM : N < M) :
    (b.nwrite + (M - b.nread)) % M = q.length := by
  have hr := h.nread_lt
  rw [h.nwrite, Nat.mod_add_mod]
  have hsum : b.nread + q.length + (M - b.nread) = q.length + M := by omega
  rw [hsum, Nat.add_mod_right, Nat.mod_eq_of_lt (h.le.trans_lt hNM)]

/-- An element that was put in last can be taken back. -/
lemma Holds.unpush {a : α} (h : Holds N M b (q ++ [a])) :
    Holds N M { b with nwrite := (M - 1 + b.nwrite) % M } q where
  nread_lt := h.nread_lt
  nwrite := by
    have hM : 0 < M := Nat.zero_lt_of_lt h.nread_lt
    simp only [h.nwrite, List.length_append, List.length_singleton, Nat.add_mod_mod]
    rw [show M - 1 + (b.nread + (q.length + 1)) = b.nread + q.length + M by omega, Nat.add_mod_right]
  le := by
    have := h.le
    rw [List.length_append] at this
    omega
  data i c hi := h.data i c (by rw [List.getElem?_append_left (List.getElem?_eq_some_iff.mp hi).1, hi])

variable (hdvd : N ∣ M)

include hdvd

/-- The element that was put in last. -/
lemma Holds.last {a : α} (h : Holds N M b (q ++ [a])) : b.data ((M - 1 + b.nwrite) % M % N) = a := by
  have hM : 0 < M := Nat.zero_lt_of_lt h.nread_lt
  have hdata := h.data q.length a (by simp)
  simp only [h.nwrite, List.length_append, List.length_singleton, Nat.add_mod_mod]
  rw [show M - 1 + (b.nread + (q.length + 1)) = b.nread + q.length + M by omega, Nat.add_mod_right,
    Nat.mod_mod_of_dvd _ hdvd, hdata]

lemma nwrite_mod (h : Holds N M b q) : b.nwrite % N = (b.nread + q.length) % N := by
  rw [h.nwrite, Nat.mod_mod_of_dvd _ hdvd]

/-- An element that is put in joins the queue at its end. -/
lemma Holds.push (h : Holds N M b q) (hlt : q.length < N) (a : α) :
    Holds N M (push N M b a) (q ++ [a]) where
  nread_lt := h.nread_lt
  nwrite := by
    rw [List.length_append, List.length_singleton, ← Nat.add_assoc]
    simp only [Ring.push, h.nwrite, Nat.mod_add_mod]
  le := by rw [List.length_append, List.length_singleton]; exact hlt
  data := by
    intro i c hi
    simp only [Ring.push, nwrite_mod hdvd h]
    rcases Nat.lt_or_ge i q.length with hiq | hiq
    · rw [List.getElem?_append_left hiq] at hi
      rw [Function.update_of_ne, h.data i c hi]
      -- places of the queue are apart, since there are at most `N` of them
      intro heq
      have := add_mod_inj (hiq.trans hlt) hlt heq
      omega
    · rw [List.getElem?_append_right hiq] at hi
      obtain ⟨hlt', rfl⟩ := List.getElem?_eq_some_iff.mp hi
      obtain rfl : i = q.length := by
        rw [List.length_singleton] at hlt'
        omega
      rw [Function.update_self, List.getElem_singleton]

/-- The element that is taken out is the first of the queue. -/
lemma Holds.pop {a : α} (h : Holds N M b (a :: q)) :
    front N b = a ∧ Holds N M (pop M b) q := by
  have hM : 0 < M := Nat.zero_lt_of_lt h.nread_lt
  refine ⟨h.data 0 a rfl, Nat.mod_lt _ hM, ?_, ?_, fun i c hi => ?_⟩
  · simp only [Ring.pop, Nat.mod_add_mod, h.nwrite, List.length_cons]
    congr 1
    omega
  · exact (Nat.le_succ _).trans h.le
  · have := h.data (i + 1) c (by rwa [List.getElem?_cons_succ])
    simp only [Ring.pop]
    rw [← this, ← Nat.mod_add_mod ((b.nread + 1) % M) N i, Nat.mod_mod_of_dvd _ hdvd,
      Nat.mod_add_mod]
    congr 2
    omega

end

end Ring
