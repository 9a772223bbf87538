import Mathlib.Algebra.GroupWithZero.Nat
import Mathlib.Data.List.Basic

/-!
# Little-endian words and fixed-size byte buffers

A buffer of `n` bytes is a function out of `Fin n`, so its length is part of
its type and a page image of the wrong size cannot be built. Everything an
on-disk format does with a buffer is one of three things: overwrite a run of
bytes, copy a run out, or read a run as a little-endian word. The lemmas say
how a read sees an overwrite of the same run, and that it does not see an
overwrite of a disjoint one.
-/

namespace TablesOS

abbrev Byte := UInt8

/-! ## Words -/

/-- The `k` low bytes of `v`, least significant first. -/
def leBytes : Nat → Nat → List Byte
  | 0, _ => []
  | k + 1, v => UInt8.ofNat v :: leBytes k (v / 256)

/-- The number whose little-endian bytes these are. -/
def ofLe : List Byte → Nat
  | [] => 0
  | b :: bs => b.toNat + 256 * ofLe bs

@[simp] theorem length_leBytes (k v : Nat) : (leBytes k v).length = k := by
  induction k generalizing v with
  | zero => rfl
  | succ k ih => simp [leBytes, ih]

theorem ofLe_leBytes (k v : Nat) : ofLe (leBytes k v) = v % 256 ^ k := by
  induction k generalizing v with
  | zero => simp [leBytes, ofLe, Nat.mod_one]
  | succ k ih =>
      rw [leBytes, ofLe, ih, Nat.pow_succ', Nat.mod_mul]
      simp

/-- A word that fits is read back as it was written. -/
theorem ofLe_leBytes_of_lt {k v : Nat} (h : v < 256 ^ k) :
    ofLe (leBytes k v) = v := by
  rw [ofLe_leBytes, Nat.mod_eq_of_lt h]

theorem ofLe_lt (bs : List Byte) : ofLe bs < 256 ^ bs.length := by
  induction bs with
  | nil => simp [ofLe]
  | cons b bs ih =>
      have hb : b.toNat < 256 := b.toNat_lt
      rw [ofLe, List.length_cons, Nat.pow_succ']
      omega

/-! ## Buffers -/

/-- A buffer of exactly `n` bytes. -/
def Buf (n : Nat) := Fin n → Byte

namespace Buf

variable {n : Nat}

def zero (n : Nat) : Buf n := fun _ => 0

instance : Inhabited (Buf n) := ⟨zero n⟩

/-- Byte `i`, zero past the end. -/
def get (b : Buf n) (i : Nat) : Byte := if h : i < n then b ⟨i, h⟩ else 0

/-- `b[o..o + len]`. -/
def slice (b : Buf n) (o len : Nat) : List Byte :=
  (List.range len).map fun i => b.get (o + i)

/-- `b[o..o + bs.len()].copy_from_slice(bs)`. -/
def put (b : Buf n) (o : Nat) (bs : List Byte) : Buf n := fun i =>
  if o ≤ i ∧ i < o + bs.length then bs.getD (i - o) 0 else b i

/-- The little-endian word in `b[o..o + k]`. -/
def getLe (b : Buf n) (k o : Nat) : Nat := ofLe (b.slice o k)

def putLe (b : Buf n) (k o v : Nat) : Buf n := b.put o (leBytes k v)

def toList (b : Buf n) : List Byte := b.slice 0 n

@[ext] theorem ext {b c : Buf n} (h : ∀ i < n, b.get i = c.get i) : b = c := by
  funext i
  have hi := h i.1 i.2
  simpa [get] using hi

@[simp] theorem get_zero (i : Nat) : (zero n).get i = 0 := by
  unfold get zero
  split <;> rfl

@[simp] theorem length_slice (b : Buf n) (o len : Nat) :
    (b.slice o len).length = len := by simp [slice]

@[simp] theorem length_toList (b : Buf n) : b.toList.length = n :=
  length_slice b 0 n

theorem getElem_slice (b : Buf n) (o len i : Nat)
    (h : i < (b.slice o len).length) : (b.slice o len)[i] = b.get (o + i) := by
  simp [slice]

theorem getD_slice {b : Buf n} {o len i : Nat} (h : i < len) :
    (b.slice o len).getD i 0 = b.get (o + i) := by
  simp [slice, List.getD_eq_getElem?_getD, h]

theorem getD_toList {b : Buf n} {i : Nat} (h : i < n) :
    b.toList.getD i 0 = b.get i := by
  rw [toList, getD_slice h, Nat.zero_add]

theorem get_put (b : Buf n) (o : Nat) (bs : List Byte) {i : Nat} (hi : i < n) :
    (b.put o bs).get i =
      if o ≤ i ∧ i < o + bs.length then bs.getD (i - o) 0 else b.get i := by
  simp only [get, put, dif_pos hi]

/-- A read of the run just written gives the bytes written. -/
theorem slice_put_self {b : Buf n} {o : Nat} {bs : List Byte}
    (h : o + bs.length ≤ n) : (b.put o bs).slice o bs.length = bs := by
  refine List.ext_getElem (by simp) fun i h1 h2 => ?_
  rw [getElem_slice, get_put _ _ _ (by omega), if_pos (by omega)]
  simp [h2]

/-- A run inside a run. -/
theorem take_drop_slice {b : Buf n} {o len a k : Nat} (h : a + k ≤ len) :
    ((b.slice o len).drop a).take k = b.slice (o + a) k := by
  refine List.ext_getElem (by simp; omega) fun i h1 h2 => ?_
  rw [List.getElem_take, List.getElem_drop, getElem_slice, getElem_slice, Nat.add_assoc]

/-- A read of a disjoint run does not see the write. -/
theorem slice_put_disjoint {b : Buf n} {o o' len : Nat} {bs : List Byte}
    (h : o + len ≤ o' ∨ o' + bs.length ≤ o) :
    (b.put o' bs).slice o len = b.slice o len := by
  refine List.ext_getElem (by simp) fun i h1 h2 => ?_
  rw [length_slice] at h1
  rw [getElem_slice, getElem_slice]
  by_cases hi : o + i < n
  · rw [get_put _ _ _ hi, if_neg (by omega)]
  · simp [get, hi]

/-- A longer read sees the write and then the bytes behind it. -/
theorem slice_put_front {b : Buf n} {o len : Nat} {bs : List Byte} (hbs : bs.length ≤ len)
    (h : o + len ≤ n) : (b.put o bs).slice o len = bs ++ (b.slice o len).drop bs.length := by
  refine List.ext_getElem (by simp; omega) fun i h1 h2 => ?_
  rw [length_slice] at h1
  rw [getElem_slice, get_put _ _ _ (by omega)]
  by_cases hi : i < bs.length
  · rw [if_pos (by omega), List.getElem_append_left hi]
    simp [hi]
  · rw [if_neg (by omega), List.getElem_append_right (by omega), List.getElem_drop,
      getElem_slice]
    congr 1
    omega

theorem put_toList (b c : Buf n) : b.put 0 c.toList = c := by
  ext i hi
  rw [get_put _ _ _ hi, if_pos (by simp; omega), Nat.sub_zero, getD_toList hi]

theorem getLe_putLe_self {b : Buf n} {k o v : Nat} (h : o + k ≤ n)
    (hv : v < 256 ^ k) : (b.putLe k o v).getLe k o = v := by
  have hs : (b.put o (leBytes k v)).slice o (leBytes k v).length = leBytes k v :=
    slice_put_self (by simpa using h)
  rw [length_leBytes] at hs
  rw [getLe, putLe, hs, ofLe_leBytes_of_lt hv]

theorem getLe_put_disjoint {b : Buf n} {k o o' : Nat} {bs : List Byte}
    (h : o + k ≤ o' ∨ o' + bs.length ≤ o) :
    (b.put o' bs).getLe k o = b.getLe k o := by
  rw [getLe, slice_put_disjoint h, getLe]

theorem getLe_putLe_disjoint {b : Buf n} {k k' o o' v : Nat}
    (h : o + k ≤ o' ∨ o' + k' ≤ o) :
    (b.putLe k' o' v).getLe k o = b.getLe k o :=
  getLe_put_disjoint (by simpa using h)

theorem slice_putLe_disjoint {b : Buf n} {k o o' len v : Nat}
    (h : o + len ≤ o' ∨ o' + k ≤ o) :
    (b.putLe k o' v).slice o len = b.slice o len :=
  slice_put_disjoint (by simpa using h)

theorem getLe_lt (b : Buf n) (k o : Nat) : b.getLe k o < 256 ^ k := by
  simpa [getLe] using ofLe_lt (b.slice o k)

@[simp] theorem getLe_zero (k o : Nat) : (zero n).getLe k o = 0 := by
  have hz : ∀ l : List Byte, (∀ x ∈ l, x = 0) → ofLe l = 0 := by
    intro l
    induction l with
    | nil => intro; rfl
    | cons x xs ih =>
        intro h
        rw [ofLe, ih fun y hy => h y (List.mem_cons_of_mem _ hy),
          h x List.mem_cons_self]
        rfl
  exact hz _ (by simp [slice])

/-! ## Blocks

A large buffer as consecutive blocks of `b` bytes, filled in one at a time. -/

variable {b : Nat}

/-- The buffer that has `blocks k` at offset `k * b`. -/
def join (blocks : Nat → Buf b) : Buf n := fun j => (blocks (j / b)).get (j % b)

theorem get_join (blocks : Nat → Buf b) {j : Nat} (hj : j < n) :
    (join blocks : Buf n).get j = (blocks (j / b)).get (j % b) := by
  rw [get, dif_pos hj]
  rfl

/-- `out`, with its first `k` bytes taken from `x`. -/
def overlay (x out : Buf n) (k : Nat) : Buf n := fun j => if j < k then x j else out j

theorem get_overlay (x out : Buf n) (k j : Nat) :
    (overlay x out k).get j = if j < k then x.get j else out.get j := by
  unfold get overlay
  split <;> split <;> rfl

theorem overlay_zero (x out : Buf n) : overlay x out 0 = out := by
  ext j hj
  rw [get_overlay, if_neg (by omega)]

theorem overlay_all (x out : Buf n) {k : Nat} (h : n ≤ k) : overlay x out k = x := by
  ext j hj
  rw [get_overlay, if_pos (by omega)]

/-- Putting the next block. -/
theorem overlay_put (blocks : Nat → Buf b) (out : Buf n) (k : Nat) :
    (overlay (join blocks) out (k * b)).put (k * b) (blocks k).toList =
      overlay (join blocks) out ((k + 1) * b) := by
  ext j hj
  rw [get_put _ _ _ hj, length_toList, get_overlay, get_overlay, Nat.succ_mul]
  by_cases h1 : j < k * b
  · have h2 : j < k * b + b := Nat.lt_add_right _ h1
    rw [if_neg (by omega), if_pos h1, if_pos h2]
  · by_cases h2 : j < k * b + b
    · have hlt : j - k * b < b := by omega
      have hj' : j = (j - k * b) + b * k := by
        rw [Nat.mul_comm b k]
        omega
      have hdiv : j / b = k := by
        rw [hj', Nat.add_mul_div_left _ _ (by omega), Nat.div_eq_of_lt hlt, Nat.zero_add]
      have hmod : j % b = j - k * b := by
        conv => lhs; rw [hj']
        rw [Nat.add_mul_mod_self_left, Nat.mod_eq_of_lt hlt]
      rw [if_pos (by omega), if_pos h2, getD_toList hlt, get_join _ hj, hdiv, hmod]
    · rw [if_neg (by omega), if_neg h1, if_neg h2]

end Buf

end TablesOS
