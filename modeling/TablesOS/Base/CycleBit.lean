import Mathlib.Algebra.Order.Ring.Nat
import Mathlib.Data.List.Basic

/-!
# Rings with a phase bit

A producer and a consumer share `n` places and go round and round. Each place
carries a bit beside its content; the producer flips the bit it writes on every
lap, so the consumer can tell a place written on this lap from one left over
from the last, and the two need no common counter. Item number `k` goes to
place `k % n` on lap `k / n`.

`Holds` says what the places hold, of the items the consumer has yet to read
and of the bits of all. Nothing is said about the content of a free place, so
the producer may fill it in any order as long as the bit comes last.
-/

namespace TablesOS

namespace CycleBit

/-- The bit of a lap; the first one writes ones over zeros. -/
def lapBit (lap : ℕ) : Bool := lap % 2 = 0

@[simp] theorem lapBit_zero : lapBit 0 = true := rfl

@[simp] theorem lapBit_succ (lap : ℕ) : lapBit (lap + 1) = !lapBit lap := by
  rcases Nat.mod_two_eq_zero_or_one lap with h | h
  · simp [lapBit, h, Nat.add_mod]
  · simp [lapBit, h, Nat.add_mod]

/-- The bit that item `k` is written with. -/
def bit (n k : ℕ) : Bool := lapBit (k / n)

variable {α : Type} {n : ℕ}

theorem bit_add (hn : 0 < n) (k : ℕ) : bit n (k + n) = !bit n k := by
  rw [bit, Nat.add_div_right k hn, lapBit_succ]
  rfl

theorem bit_of_lt {k : ℕ} (h : k < n) : bit n k = true := by
  rw [bit, Nat.div_eq_of_lt h]
  rfl

/-- Less than a lap apart no two items have one place. -/
theorem place_ne {j k : ℕ} (h : j < k) (hk : k < j + n) : j % n ≠ k % n := by
  intro heq
  have hdvd : n ∣ k - j := Nat.dvd_of_mod_eq_zero (Nat.sub_mod_eq_zero_of_mod_eq heq.symm)
  have hle := Nat.le_of_dvd (Nat.sub_pos_of_lt h) hdvd
  omega

/-- What the places hold when `items` have been written and the first `read` of
them read. -/
structure Holds (n : ℕ) (content : ℕ → α) (phase : ℕ → Bool) (items : List α) (read : ℕ) :
    Prop where
  /-- An unread item is in its place. -/
  item : ∀ k, read ≤ k → (h : k < items.length) → content (k % n) = items.get ⟨k, h⟩
  /-- The last item of each place left its bit. -/
  phased : ∀ k, k < items.length → items.length ≤ k + n → phase (k % n) = bit n k
  /-- A place that no item has reached is zero. -/
  blank : ∀ i, items.length ≤ i → i < n → phase i = false
  read_le : read ≤ items.length
  fits : items.length ≤ read + n

namespace Holds

variable {content : ℕ → α} {phase : ℕ → Bool} {items : List α} {read : ℕ}

theorem empty (n : ℕ) (content : ℕ → α) : Holds n content (fun _ => false) [] 0 where
  item k _ h := absurd h (Nat.not_lt_zero k)
  phased k h := absurd h (Nat.not_lt_zero k)
  blank _ _ _ := rfl
  read_le := Nat.le_refl 0
  fits := Nat.zero_le _

/-- The bit in the consumer's place is the one it expects exactly when an item
is there for it. -/
theorem ready (hn : 0 < n) (h : Holds n content phase items read) :
    phase (read % n) = bit n read ↔ read < items.length := by
  constructor
  · intro hbit
    by_contra hnot
    have hall : read = items.length := Nat.le_antisymm h.read_le (Nat.le_of_not_lt hnot)
    by_cases hlap : read < n
    · have hblank := h.blank read (by omega) hlap
      rw [Nat.mod_eq_of_lt hlap, hblank, bit_of_lt hlap] at hbit
      cases hbit
    · obtain ⟨k, hk⟩ : ∃ k, read = k + n := ⟨read - n, by omega⟩
      have hlast := h.phased k (by omega) (by omega)
      rw [hk, Nat.add_mod_right, hlast, bit_add hn] at hbit
      cases hb : bit n k <;> simp [hb] at hbit
  · intro hlt
    exact h.phased read hlt h.fits

/-- The item that is there. -/
theorem next (h : Holds n content phase items read) (hlt : read < items.length) :
    content (read % n) = items.get ⟨read, hlt⟩ := h.item read (Nat.le_refl _) hlt

theorem take (h : Holds n content phase items read) (hlt : read < items.length) :
    Holds n content phase items (read + 1) where
  item k hk := h.item k (by omega)
  phased := h.phased
  blank := h.blank
  read_le := hlt
  fits := by
    have := h.fits
    omega

/-- What lies beyond the places does not count. -/
theorem congr {content' : ℕ → α} {phase' : ℕ → Bool} (hn : 0 < n)
    (h : Holds n content phase items read) (hcontent : ∀ i, i < n → content' i = content i)
    (hphase : ∀ i, i < n → phase' i = phase i) : Holds n content' phase' items read where
  item k hk hlt := by
    rw [hcontent _ (Nat.mod_lt k hn), h.item k hk hlt]
  phased k hk hfit := by
    rw [hphase _ (Nat.mod_lt k hn), h.phased k hk hfit]
  blank i hi hlt := by
    rw [hphase i hlt, h.blank i hi hlt]
  read_le := h.read_le
  fits := h.fits

/-- The producer's place is free. -/
theorem fill {content' : ℕ → α} (h : Holds n content phase items read)
    (hroom : items.length < read + n)
    (hsame : ∀ i, i ≠ items.length % n → content' i = content i) :
    Holds n content' phase items read where
  item k hk hlt := by
    rw [hsame _ (place_ne hlt (by omega)), h.item k hk hlt]
  phased := h.phased
  blank := h.blank
  read_le := h.read_le
  fits := h.fits

/-- The item counts once its bit is written. -/
theorem write {phase' : ℕ → Bool} {a : α} (h : Holds n content phase items read)
    (hroom : items.length < read + n) (hcontent : content (items.length % n) = a)
    (hphase : phase' (items.length % n) = bit n items.length)
    (hsame : ∀ i, i ≠ items.length % n → phase' i = phase i) :
    Holds n content phase' (items ++ [a]) read where
  item k hk hlt := by
    rw [List.length_append, List.length_singleton] at hlt
    by_cases hlast : k = items.length
    · subst hlast
      simpa using hcontent
    · have hold : k < items.length := by omega
      rw [h.item k hk hold]
      simp [List.getElem_append_left hold]
  phased k hk hfit := by
    rw [List.length_append, List.length_singleton] at hk hfit
    by_cases hlast : k = items.length
    · rw [hlast]
      exact hphase
    · rw [hsame _ (place_ne (by omega) (by omega))]
      exact h.phased k (by omega) (by omega)
  blank i hi hlt := by
    rw [List.length_append, List.length_singleton] at hi
    have hplace : items.length % n = items.length := Nat.mod_eq_of_lt (by omega)
    rw [hsame i (by omega)]
    exact h.blank i (by omega) hlt
  read_le := by
    have := h.read_le
    rw [List.length_append]
    omega
  fits := by
    rw [List.length_append, List.length_singleton]
    omega

end Holds

end CycleBit

end TablesOS
