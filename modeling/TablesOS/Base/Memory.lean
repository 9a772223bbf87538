import TablesOS.Base.Bytes
import Mathlib.Data.List.GetD

/-!
# A flat memory

A byte at every address. A run of bytes is put at an address and a run is read
back; words are runs, least significant byte first. The lemmas say how a read
sees a write that covers it, and that it does not see one beside it.
-/

namespace TablesOS

theorem ofLe_append (bs bs' : List Byte) :
    ofLe (bs ++ bs') = ofLe bs + 256 ^ bs.length * ofLe bs' := by
  induction bs with
  | nil => simp [ofLe]
  | cons b bs ih =>
      rw [List.cons_append, ofLe, ofLe, ih, List.length_cons, Nat.pow_succ', Nat.mul_add,
        Nat.mul_assoc, Nat.add_assoc]

/-- The bytes of a word that was made of them. -/
theorem leBytes_ofLe (bs : List Byte) : leBytes bs.length (ofLe bs) = bs := by
  induction bs with
  | nil => rfl
  | cons b bs ih =>
      have hb := b.toNat_lt
      have hlow : UInt8.ofNat (b.toNat + 256 * ofLe bs) = b := by
        apply UInt8.toNat_inj.mp
        rw [UInt8.toNat_ofNat']
        omega
      have hhigh : (b.toNat + 256 * ofLe bs) / 256 = ofLe bs := by omega
      rw [List.length_cons, leBytes, ofLe, hlow, hhigh, ih]

/-- A byte at every address. -/
def Mem := Nat → Byte

namespace Mem

/-- The memory with a run of bytes at an address. -/
def put (m : Mem) (a : Nat) (bs : List Byte) : Mem := fun i =>
  if a ≤ i ∧ i < a + bs.length then bs.getD (i - a) 0 else m i

/-- The run of `n` bytes at an address. -/
def bytes (m : Mem) (a n : Nat) : List Byte := (List.range n).map fun i => m (a + i)

/-- The word of `k` bytes at an address. -/
def getLe (m : Mem) (k a : Nat) : Nat := ofLe (m.bytes a k)

def putLe (m : Mem) (k a v : Nat) : Mem := m.put a (leBytes k v)

variable {m m' : Mem} {a a' i k k' n n' v : Nat} {bs : List Byte}

@[simp] theorem length_bytes (m : Mem) (a n : Nat) : (m.bytes a n).length = n := by
  simp [bytes]

@[simp] theorem bytes_zero (m : Mem) (a : Nat) : m.bytes a 0 = [] := rfl

theorem getElem_bytes (h : i < (m.bytes a n).length) : (m.bytes a n)[i] = m (a + i) := by
  simp [bytes]

theorem bytes_add (m : Mem) (a n n' : Nat) :
    m.bytes a (n + n') = m.bytes a n ++ m.bytes (a + n) n' := by
  simp [bytes, List.range_add, Nat.add_assoc, Function.comp_def]

/-- Two memories that agree on a run. -/
theorem bytes_congr (h : ∀ j, a ≤ j → j < a + n → m j = m' j) : m.bytes a n = m'.bytes a n := by
  refine List.map_congr_left fun i hi => ?_
  have := List.mem_range.mp hi
  exact h _ (by omega) (by omega)

/-! ## Reads and writes -/

theorem put_apply_out (h : i < a ∨ a + bs.length ≤ i) : m.put a bs i = m i :=
  if_neg (by omega)

theorem put_apply_in (h : a ≤ i) (h' : i < a + bs.length) : m.put a bs i = bs.getD (i - a) 0 :=
  if_pos ⟨h, h'⟩

@[simp] theorem put_nil (m : Mem) (a : Nat) : m.put a [] = m := by
  funext i
  exact put_apply_out (by simp; omega)

theorem put_one_apply (m : Mem) (a i : Nat) (b : Byte) :
    m.put a [b] i = if i = a then b else m i := by
  by_cases h : i = a
  · subst h
    rw [put_apply_in (Nat.le_refl _) (by simp), if_pos rfl, Nat.sub_self]
    rfl
  · rw [if_neg h, put_apply_out (by simp; omega)]

/-- The run just written. -/
theorem bytes_put_self (h : bs.length = n) : (m.put a bs).bytes a n = bs := by
  refine List.ext_getElem (by simp [h]) fun i h1 h2 => ?_
  rw [getElem_bytes, put_apply_in (by omega) (by omega), Nat.add_sub_cancel_left]
  simp [h2]

/-- A run inside the one just written. -/
theorem bytes_put_within (h : a ≤ a') (h' : a' + n ≤ a + bs.length) :
    (m.put a bs).bytes a' n = (bs.drop (a' - a)).take n := by
  refine List.ext_getElem (by simp; omega) fun i h1 h2 => ?_
  have hi : i < n := by simpa using h1
  rw [getElem_bytes, put_apply_in (by omega) (by omega), List.getElem_take, List.getElem_drop]
  have : a' + i - a = a' - a + i := by omega
  rw [this, List.getD_eq_getElem _ _ (by omega)]

/-- A run beside it. -/
theorem bytes_put_of_disjoint (h : a + bs.length ≤ a' ∨ a' + n ≤ a) :
    (m.put a bs).bytes a' n = m.bytes a' n :=
  bytes_congr fun _ hj hj' => put_apply_out (by omega)

/-- One run after the other. -/
theorem put_append (m : Mem) (a : Nat) (bs bs' : List Byte) :
    m.put a (bs ++ bs') = (m.put a bs).put (a + bs.length) bs' := by
  funext i
  by_cases h : a ≤ i ∧ i < a + (bs ++ bs').length
  · rw [put_apply_in h.1 h.2, List.length_append] at *
    by_cases h' : i < a + bs.length
    · rw [put_apply_out (Or.inl h'), put_apply_in h.1 h',
        List.getD_append _ _ _ _ (by omega)]
    · rw [put_apply_in (by omega) (by omega), List.getD_append_right _ _ _ _ (by omega)]
      congr 1
      omega
  · rw [List.length_append] at h
    rw [put_apply_out (by rw [List.length_append]; omega), put_apply_out (by omega),
      put_apply_out (by omega)]

theorem getLe_putLe_self (h : v < 256 ^ k) : (m.putLe k a v).getLe k a = v := by
  rw [getLe, putLe, bytes_put_self (length_leBytes k v), ofLe_leBytes_of_lt h]

theorem getLe_put_of_disjoint (h : a + bs.length ≤ a' ∨ a' + k ≤ a) :
    (m.put a bs).getLe k a' = m.getLe k a' := by
  rw [getLe, bytes_put_of_disjoint h, getLe]

theorem getLe_putLe_of_disjoint (h : a + k ≤ a' ∨ a' + k' ≤ a) :
    (m.putLe k a v).getLe k' a' = m.getLe k' a' :=
  getLe_put_of_disjoint (by rwa [length_leBytes])

/-- A word that is copied. -/
theorem putLe_getLe (m m' : Mem) (k a a' : Nat) :
    m.putLe k a (m'.getLe k a') = m.put a (m'.bytes a' k) := by
  have h := leBytes_ofLe (m'.bytes a' k)
  rw [length_bytes] at h
  rw [putLe, getLe, h]

theorem getLe_lt (m : Mem) (k a : Nat) : m.getLe k a < 256 ^ k := by
  simpa [getLe] using ofLe_lt (m.bytes a k)

theorem getLe_congr (h : ∀ j, a ≤ j → j < a + k → m j = m' j) : m.getLe k a = m'.getLe k a := by
  rw [getLe, getLe, bytes_congr h]

/-- A word, by its low and its high part. -/
theorem getLe_add (m : Mem) (k k' a : Nat) :
    m.getLe (k + k') a = m.getLe k a + 256 ^ k * m.getLe k' (a + k) := by
  rw [getLe, bytes_add, ofLe_append, length_bytes, getLe, getLe]

/-- A word that is written in two parts. -/
theorem getLe_putLe_putLe {v' : Nat} (h : v < 256 ^ k) (h' : v' < 256 ^ k') :
    ((m.putLe k a v).putLe k' (a + k) v').getLe (k + k') a = v + 256 ^ k * v' := by
  rw [getLe_add, getLe_putLe_of_disjoint (Or.inr (Nat.le_refl _)), getLe_putLe_self h,
    getLe_putLe_self h']

theorem ofLe_zeros (n : Nat) : ofLe (List.replicate n 0) = 0 := by
  induction n with
  | zero => rfl
  | succ n ih =>
      rw [List.replicate_succ, ofLe, ih]
      rfl

/-- A word in a run of zeros. -/
theorem getLe_zeros (h : a ≤ a') (h' : a' + k ≤ a + n) :
    (m.put a (List.replicate n 0)).getLe k a' = 0 := by
  have hin : a' + k ≤ a + (List.replicate n (0 : Byte)).length := by
    rwa [List.length_replicate]
  rw [getLe, bytes_put_within h hin, List.drop_replicate, List.take_replicate, ofLe_zeros]

/-! ## What a change leaves alone -/

/-- The memories agree outside of the addresses from `a` to `b`. -/
def Apart (m m' : Mem) (a b : Nat) : Prop := ∀ i, i < a ∨ b ≤ i → m' i = m i

theorem Apart.refl (m : Mem) (a b : Nat) : Apart m m a b := fun _ _ => rfl

theorem Apart.trans {m'' : Mem} {b : Nat} (h : Apart m m' a b) (h' : Apart m' m'' a b) :
    Apart m m'' a b := fun i hi => (h' i hi).trans (h i hi)

theorem Apart.mono {b b' : Nat} (h : Apart m m' a b) (ha : a' ≤ a) (hb : b ≤ b') :
    Apart m m' a' b' := fun i hi => h i (by omega)

theorem apart_put (m : Mem) (a : Nat) (bs : List Byte) : Apart m (m.put a bs) a (a + bs.length) :=
  fun _ hi => put_apply_out hi

theorem Apart.bytes {b : Nat} (h : Apart m m' a b) (hd : a' + n ≤ a ∨ b ≤ a') :
    m'.bytes a' n = m.bytes a' n :=
  bytes_congr fun j _ _ => h j (by omega)

theorem Apart.getLe {b : Nat} (h : Apart m m' a b) (hd : a' + k ≤ a ∨ b ≤ a') :
    m'.getLe k a' = m.getLe k a' :=
  getLe_congr fun j _ _ => h j (by omega)

end Mem

end TablesOS
