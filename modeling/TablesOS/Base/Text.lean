import Mathlib.Algebra.GroupWithZero.Nat
import Mathlib.Data.List.DropRight

/-!
# Splitting text

The string operations a hand-written parser uses, on text as its list of
characters: the first and the last occurrence of a separator, all of them, and
a cut at a byte offset that has to fall on a character boundary.
-/

namespace TablesOS

abbrev Chars := List Char

/-- `str::split_once`: at the first occurrence of `c`. -/
def splitOnce (c : Char) : Chars → Option (Chars × Chars)
  | [] => none
  | x :: xs =>
      if x = c then some ([], xs)
      else (splitOnce c xs).map fun r => (x :: r.1, r.2)

/-- `str::rsplit_once`: at the last occurrence of `c`. -/
def rsplitOnce (c : Char) (s : Chars) : Option (Chars × Chars) :=
  (splitOnce c s.reverse).map fun r => (r.2.reverse, r.1.reverse)

/-- `str::split`: at every occurrence of `c`. -/
def splitAll (c : Char) : Chars → List Chars
  | [] => [[]]
  | x :: xs =>
      if x = c then [] :: splitAll c xs
      else match splitAll c xs with
        | [] => [[x]]
        | p :: ps => (x :: p) :: ps

/-- `str::len`: the length in UTF-8 bytes. -/
def utf8Len (s : Chars) : Nat := (s.map Char.utf8Size).sum

/-- `str::as_bytes` -/
def utf8Bytes (s : Chars) : List UInt8 := s.flatMap String.utf8EncodeChar

/-- `(&s[..cut], &s[cut..])`, when `cut` is a character boundary. -/
def splitAtByte : Nat → Chars → Option (Chars × Chars)
  | 0, s => some ([], s)
  | _ + 1, [] => none
  | n + 1, c :: cs =>
      if c.utf8Size ≤ n + 1 then
        (splitAtByte (n + 1 - c.utf8Size) cs).map fun r => (c :: r.1, r.2)
      else none

theorem splitOnce_none {c : Char} {s : Chars} (h : c ∉ s) :
    splitOnce c s = none := by
  induction s with
  | nil => rfl
  | cons x xs ih =>
      rw [List.mem_cons, not_or] at h
      rw [splitOnce, if_neg (Ne.symm h.1), ih h.2]
      rfl

theorem splitOnce_append {c : Char} {a b : Chars} (h : c ∉ a) :
    splitOnce c (a ++ c :: b) = some (a, b) := by
  induction a with
  | nil => simp [splitOnce]
  | cons x xs ih =>
      rw [List.mem_cons, not_or] at h
      rw [List.cons_append, splitOnce, if_neg (Ne.symm h.1), ih h.2]
      rfl

theorem rsplitOnce_append {c : Char} {a b : Chars} (h : c ∉ b) :
    rsplitOnce c (a ++ c :: b) = some (a, b) := by
  have hr : (a ++ c :: b).reverse = b.reverse ++ c :: a.reverse := by simp
  rw [rsplitOnce, hr, splitOnce_append (by simpa using h)]
  simp

theorem splitAll_none {c : Char} {s : Chars} (h : c ∉ s) :
    splitAll c s = [s] := by
  induction s with
  | nil => rfl
  | cons x xs ih =>
      rw [List.mem_cons, not_or] at h
      rw [splitAll, if_neg (Ne.symm h.1), ih h.2]

theorem splitAll_append {c : Char} {a b : Chars} (h : c ∉ a) :
    splitAll c (a ++ c :: b) = a :: splitAll c b := by
  induction a with
  | nil => simp [splitAll]
  | cons x xs ih =>
      rw [List.mem_cons, not_or] at h
      rw [List.cons_append, splitAll, if_neg (Ne.symm h.1), ih h.2]

@[simp] theorem utf8Len_nil : utf8Len [] = 0 := rfl

@[simp] theorem utf8Len_cons (c : Char) (s : Chars) :
    utf8Len (c :: s) = c.utf8Size + utf8Len s := by
  simp [utf8Len]

@[simp] theorem utf8Len_append (a b : Chars) :
    utf8Len (a ++ b) = utf8Len a + utf8Len b := by
  simp [utf8Len]

/-- A cut at the byte length of a prefix gives that prefix. -/
theorem splitAtByte_append (a b : Chars) :
    splitAtByte (utf8Len a) (a ++ b) = some (a, b) := by
  induction a with
  | nil => simp [splitAtByte]
  | cons x xs ih =>
      have hx : 0 < x.utf8Size := x.utf8Size_pos
      obtain ⟨n, hn⟩ : ∃ n, utf8Len (x :: xs) = n + 1 :=
        ⟨utf8Len (x :: xs) - 1, by rw [utf8Len_cons]; omega⟩
      rw [List.cons_append, hn, splitAtByte]
      rw [utf8Len_cons] at hn
      rw [if_pos (by omega), show n + 1 - x.utf8Size = utf8Len xs by omega, ih]
      rfl

/-! ## What a split says of the text -/

theorem splitOnce_eq_some {c : Char} {s a b : Chars} (h : splitOnce c s = some (a, b)) :
    s = a ++ c :: b ∧ c ∉ a := by
  induction s generalizing a with
  | nil => cases h
  | cons x xs ih =>
      rw [splitOnce] at h
      split at h
      · next hx =>
          cases h
          exact ⟨by rw [hx, List.nil_append], List.not_mem_nil⟩
      · next hx =>
          obtain ⟨⟨a', b'⟩, hr, hab⟩ := Option.map_eq_some_iff.mp h
          cases hab
          obtain ⟨hs, hc⟩ := ih hr
          refine ⟨congrArg (x :: ·) hs, fun hmem => ?_⟩
          rcases List.mem_cons.mp hmem with hcx | hca
          · exact hx hcx.symm
          · exact hc hca

theorem rsplitOnce_eq_some {c : Char} {s a b : Chars} (h : rsplitOnce c s = some (a, b)) :
    s = a ++ c :: b ∧ c ∉ b := by
  obtain ⟨⟨y, x⟩, hr, hab⟩ := Option.map_eq_some_iff.mp h
  cases hab
  obtain ⟨hs, hc⟩ := splitOnce_eq_some hr
  refine ⟨?_, fun hmem => hc (List.mem_reverse.mp hmem)⟩
  have hrev := congrArg List.reverse hs
  simpa using hrev

theorem splitAll_ne_nil (c : Char) (s : Chars) : splitAll c s ≠ [] := by
  cases s with
  | nil => exact List.cons_ne_nil _ _
  | cons x xs =>
      rw [splitAll]
      split
      · exact List.cons_ne_nil _ _
      · split <;> exact List.cons_ne_nil _ _

/-- The pieces with the separator between them are the text. -/
theorem intercalate_splitAll (c : Char) (s : Chars) : [c].intercalate (splitAll c s) = s := by
  induction s with
  | nil => rfl
  | cons x xs ih =>
      obtain ⟨p, ps, hp⟩ := List.exists_cons_of_ne_nil (splitAll_ne_nil c xs)
      rw [hp] at ih
      rw [splitAll, hp]
      split
      · next hx =>
          rw [← ih, hx]
          rfl
      · rw [← ih]
        cases ps <;> rfl

theorem splitAtByte_eq_some {n : Nat} {s a b : Chars} (h : splitAtByte n s = some (a, b)) :
    s = a ++ b ∧ utf8Len a = n := by
  induction s generalizing n a with
  | nil =>
      cases n with
      | zero =>
          cases h
          exact ⟨rfl, rfl⟩
      | succ n => cases h
  | cons c s ih =>
      cases n with
      | zero =>
          cases h
          exact ⟨rfl, rfl⟩
      | succ n =>
          rw [splitAtByte] at h
          split at h
          · next hsize =>
              obtain ⟨⟨a', b'⟩, hr, hab⟩ := Option.map_eq_some_iff.mp h
              cases hab
              obtain ⟨hs, hlen⟩ := ih hr
              refine ⟨congrArg (c :: ·) hs, ?_⟩
              rw [utf8Len_cons, hlen]
              omega
          · cases h

/-! ## Bytes of a character -/

/-- Outside ASCII every byte has its top bit set. -/
theorem byte_ge {c : Char} (hc : 128 ≤ c.toNat) {b : UInt8}
    (hb : b ∈ String.utf8EncodeChar c) : 128 ≤ b.toNat := by
  have hv : c.toNat = c.val.toNat := rfl
  unfold String.utf8EncodeChar at hb
  simp only at hb
  split at hb
  · omega
  · split at hb
    · simp only [List.mem_cons, List.not_mem_nil, or_false] at hb
      rcases hb with rfl | rfl <;> simp <;> omega
    · split at hb
      · simp only [List.mem_cons, List.not_mem_nil, or_false] at hb
        rcases hb with rfl | rfl | rfl <;> simp <;> omega
      · simp only [List.mem_cons, List.not_mem_nil, or_false] at hb
        rcases hb with rfl | rfl | rfl | rfl <;> simp <;> omega

theorem ascii_bytes {c : Char} (hc : c.toNat < 128) :
    String.utf8EncodeChar c = [UInt8.ofNat c.toNat] := by
  have hv : c.toNat = c.val.toNat := rfl
  rw [String.utf8EncodeChar, if_pos (show c.val.toNat ≤ 127 by omega), hv]

theorem utf8Bytes_cons (c : Char) (s : Chars) :
    utf8Bytes (c :: s) = String.utf8EncodeChar c ++ utf8Bytes s := List.flatMap_cons

theorem length_utf8Bytes (s : Chars) : (utf8Bytes s).length = utf8Len s := by
  induction s with
  | nil => rfl
  | cons c s ih =>
      rw [utf8Bytes_cons, List.length_append, String.length_utf8EncodeChar, ih, utf8Len_cons]

end TablesOS
