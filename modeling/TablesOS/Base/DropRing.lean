import Mathlib.Data.List.Basic
import Mathlib.Data.List.Range

/-!
# A ring that drops what does not fit

A fixed number of slots, the place of the first element and how many there are.
The elements are read off from the head on, round the end of the slots; what
the other slots hold is of no account. A push into a full ring is dropped. Over
any order of pushes and pops, what has been popped and what is still there are
together what was accepted, in the order of the pushes.
-/

namespace TablesOS

/-- A ring of `cap` slots. -/
structure DropRing (α : Type) (cap : ℕ) where
  buf : Vector α cap
  head : ℕ
  len : ℕ
  head_lt : head < cap
  len_le : len ≤ cap

namespace DropRing

variable {α : Type} {cap : ℕ}

theorem index_lt {i : ℕ} (r : DropRing α cap) : (r.head + i) % cap < cap :=
  Nat.mod_lt _ (Nat.lt_of_le_of_lt (Nat.zero_le _) r.head_lt)

/-- Element `i`, counted from the head. -/
def get (r : DropRing α cap) (i : ℕ) : α := r.buf.get ⟨(r.head + i) % cap, r.index_lt⟩

/-- The elements in their order. -/
def contents (r : DropRing α cap) : List α := (List.range r.len).map r.get

/-- Append an element, or drop it where the ring is full. -/
def push (r : DropRing α cap) (e : α) : DropRing α cap :=
  if h : r.len = cap then r
  else
    { r with
      buf := r.buf.set ((r.head + r.len) % cap) e r.index_lt
      len := r.len + 1
      len_le := Nat.lt_of_le_of_ne r.len_le h }

/-- Take the first element off. -/
def pop (r : DropRing α cap) : Option α × DropRing α cap :=
  if r.len = 0 then (none, r)
  else
    (some (r.get 0),
      { r with
        head := (r.head + 1) % cap
        len := r.len - 1
        head_lt := r.index_lt
        len_le := Nat.le_trans (Nat.sub_le _ _) r.len_le })

@[simp] theorem length_contents (r : DropRing α cap) : r.contents.length = r.len := by
  rw [contents, List.length_map, List.length_range]

/-- Two places of the ring are one slot only if they are one place. -/
theorem index_inj {r : DropRing α cap} {i j : ℕ} (hi : i < cap) (hj : j < cap)
    (h : (r.head + i) % cap = (r.head + j) % cap) : i = j := by
  have hi' := Nat.mod_add_div (r.head + i) cap
  have hj' := Nat.mod_add_div (r.head + j) cap
  rw [h] at hi'
  rcases Nat.lt_trichotomy ((r.head + i) / cap) ((r.head + j) / cap) with hd | hd | hd
  · have := Nat.mul_le_mul_left cap (Nat.succ_le_of_lt hd)
    rw [Nat.mul_succ] at this
    omega
  · rw [hd] at hi'
    omega
  · have := Nat.mul_le_mul_left cap (Nat.succ_le_of_lt hd)
    rw [Nat.mul_succ] at this
    omega

theorem contents_push (r : DropRing α cap) (e : α) :
    (r.push e).contents = if r.len = cap then r.contents else r.contents ++ [e] := by
  unfold push
  split
  · rfl
  · next h =>
      rw [contents, contents]
      show (List.range (r.len + 1)).map _ = _
      rw [List.range_succ, List.map_append, List.map_singleton]
      refine congrArg₂ (· ++ ·) (List.map_congr_left fun i hi => ?_) (congrArg (fun x => [x]) ?_)
      · have hlt := List.mem_range.mp hi
        have hle := r.len_le
        refine Vector.getElem_set_ne r.index_lt r.index_lt fun heq => ?_
        have := index_inj (by omega) (by omega) heq
        omega
      · exact Vector.getElem_set_self r.index_lt

theorem contents_pop (r : DropRing α cap) : r.pop.2.contents = r.contents.tail ∧
    r.pop.1 = r.contents.head? := by
  unfold pop
  split
  · next h =>
      have hnil : r.contents = [] := List.eq_nil_of_length_eq_zero (by simp [h])
      simp [hnil]
  · next h =>
      obtain ⟨n, hn⟩ := Nat.exists_eq_succ_of_ne_zero h
      have hcons : r.contents = r.get 0 :: (List.range n).map fun i => r.get (i + 1) := by
        rw [contents, hn, List.range_succ_eq_map, List.map_cons, List.map_map]
        rfl
      rw [hcons]
      refine ⟨?_, rfl⟩
      have hlen : List.range (r.len - 1) = List.range n := by rw [hn, Nat.succ_sub_one]
      refine (congrArg (List.map _) hlen).trans (List.map_congr_left fun i _ => ?_)
      refine congrArg r.buf.get (Fin.ext ?_)
      show ((r.head + 1) % cap + i) % cap = (r.head + (i + 1)) % cap
      rw [Nat.mod_add_mod, Nat.add_assoc, Nat.add_comm 1 i]

end DropRing

end TablesOS
