import Mathlib.Algebra.GroupWithZero.Nat
import Mathlib.Data.List.Basic

/-!
# Decoders that consume a prefix

A decoder takes a value off the front of a byte string and hands back the
rest. `Reads d b a` says that `d`, met with the bytes `b`, reads exactly those
and answers `a`, whatever follows. It composes the way encodings are
concatenated, so a round trip of a compound format is the round trips of its
parts in the same order.
-/

namespace TablesOS

/-- A decoder: what it reads off the front of its input, and the rest. -/
abbrev Decoder (ε α : Type) := StateT (List UInt8) (Except ε) α

namespace Decoder

variable {ε α β : Type}

/-- `for _ in 0..n { v.push(d()?); }` -/
def many (d : Decoder ε α) : Nat → Decoder ε (List α)
  | 0 => pure []
  | n + 1 => do
      let a ← d
      let as ← many d n
      pure (a :: as)

/-- `d` reads exactly `b` and answers `a`. -/
def Reads (d : Decoder ε α) (b : List UInt8) (a : α) : Prop :=
  ∀ rest, d (b ++ rest) = .ok (a, rest)

theorem bind_ok {d : Decoder ε α} {f : α → Decoder ε β} {s s' : List UInt8}
    {a : α} (h : d s = .ok (a, s')) : (d >>= f) s = f a s' := by
  show (d s >>= fun r => f r.1 r.2) = f a s'
  rw [h]
  rfl

theorem reads_pure (a : α) : Reads (pure a : Decoder ε α) [] a := fun _ => rfl

theorem Reads.bind {d : Decoder ε α} {f : α → Decoder ε β} {b b' : List UInt8}
    {a : α} {c : β} (hd : Reads d b a) (hf : Reads (f a) b' c) :
    Reads (d >>= f) (b ++ b') c := fun rest => by
  rw [List.append_assoc, bind_ok (hd (b' ++ rest))]
  exact hf rest

/-- The last step of a decoder reads nothing more. -/
theorem Reads.bind_last {d : Decoder ε α} {f : α → Decoder ε β} {b : List UInt8}
    {a : α} {c : β} (hd : Reads d b a) (hf : Reads (f a) [] c) :
    Reads (d >>= f) b c := by
  have h := hd.bind hf
  rwa [List.append_nil] at h

/-- A counted run of encodings is read back as the list it came from. -/
theorem Reads.many {d : Decoder ε α} {enc : α → List UInt8} :
    ∀ {xs : List α}, (∀ x ∈ xs, Reads d (enc x) x) →
      Reads (many d xs.length) (xs.flatMap enc) xs
  | [], _ => reads_pure []
  | x :: xs, h => by
      have hx := h x List.mem_cons_self
      have hxs := Reads.many fun y hy => h y (List.mem_cons_of_mem _ hy)
      rw [List.flatMap_cons]
      exact hx.bind (hxs.bind_last (reads_pure (x :: xs)))

theorem run'_ok {d : Decoder ε α} {b s : List UInt8} {a : α} (h : d b = .ok (a, s)) :
    d.run' b = .ok a := by
  show (Prod.fst <$> d b) = .ok a
  rw [h]
  rfl

/-- At the end of the input. -/
theorem Reads.at_end {d : Decoder ε α} {b : List UInt8} {a : α} (h : Reads d b a) :
    d b = .ok (a, []) := by
  have h0 := h []
  rwa [List.append_nil] at h0

theorem Reads.run' {d : Decoder ε α} {b : List UInt8} {a : α} (h : Reads d b a) :
    d.run' b = .ok a := run'_ok h.at_end

/-! ## Failing -/

section Fails

variable {P : ε → Prop}

/-- Where the decoder fails, it fails with an error of `P`. -/
def FailsWith (P : ε → Prop) (d : Decoder ε α) : Prop := ∀ s e, d s = .error e → P e

namespace FailsWith

theorem pure (a : α) : FailsWith P (Pure.pure a : Decoder ε α) := fun _ _ h => by cases h

theorem throw {e : ε} (h : P e) : FailsWith P (MonadExcept.throw e : Decoder ε α) := by
  intro s e' he
  cases he
  exact h

theorem bind {d : Decoder ε α} {f : α → Decoder ε β} (hd : FailsWith P d)
    (hf : ∀ a, FailsWith P (f a)) : FailsWith P (d >>= f) := by
  intro s e h
  change (d s >>= fun r => f r.1 r.2) = .error e at h
  cases hs : d s with
  | error e' =>
      rw [hs] at h
      cases h
      exact hd s e hs
  | ok r =>
      rw [hs] at h
      exact hf r.1 r.2 e h

theorem many {d : Decoder ε α} (hd : FailsWith P d) (n : Nat) : FailsWith P (many d n) := by
  induction n with
  | zero => exact pure []
  | succ n ih => exact hd.bind fun _ => ih.bind fun _ => pure _

theorem run' {d : Decoder ε α} (hd : FailsWith P d) {s : List UInt8} {e : ε}
    (h : d.run' s = .error e) : P e := by
  change (Prod.fst <$> d s) = .error e at h
  cases hs : d s with
  | error e' =>
      rw [hs] at h
      cases h
      exact hd s e hs
  | ok r =>
      rw [hs] at h
      cases h

end FailsWith

end Fails

end Decoder

end TablesOS
