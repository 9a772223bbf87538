import Mathlib.Algebra.GroupWithZero.Nat
import Mathlib.Data.List.Basic

/-!
# Stateful computations that can fail, and triples for them

`Fallible ε σ α` is a computation on a state `σ` that answers or reports an
error; either way the state it reached is there to be looked at afterwards.
That is what separates it from `StateT σ (Except ε)`: a device that failed in
the middle of a protocol has been written to, and what it was left with is the
whole question of crash safety.

A triple therefore has two postconditions, one for the state of a run that
answered and one for the state of a run that stopped. Instantiating the second
one with "what may be on the medium by now" turns the rules below into a small
crash logic: the sequencing rule says that a crash inside `m >>= f` is a crash
inside `m` or a crash inside `f`.
-/

namespace TablesOS

/-- A computation on `σ` that answers an `α` or stops with an `ε`. -/
def Fallible (ε σ α : Type) := σ → Except ε α × σ

namespace Fallible

variable {ε σ α β : Type}

instance : Monad (Fallible ε σ) where
  pure a s := (.ok a, s)
  bind m f s := match m s with
    | (.ok a, s') => f a s'
    | (.error e, s') => (.error e, s')

/-- Stop with an error. -/
def throw (e : ε) : Fallible ε σ α := fun s => (.error e, s)

/-- Read something off the state. -/
def gets (f : σ → α) : Fallible ε σ α := fun s => (.ok (f s), s)

@[simp] theorem run_pure (a : α) (s : σ) :
    (pure a : Fallible ε σ α) s = (.ok a, s) := rfl

@[simp] theorem run_throw (e : ε) (s : σ) :
    (throw e : Fallible ε σ α) s = (.error e, s) := rfl

@[simp] theorem run_gets (f : σ → α) (s : σ) :
    (gets f : Fallible ε σ α) s = (.ok (f s), s) := rfl

theorem run_bind (m : Fallible ε σ α) (f : α → Fallible ε σ β) (s : σ) :
    (m >>= f) s = match m s with
      | (.ok a, s') => f a s'
      | (.error e, s') => (.error e, s') := rfl

theorem run_bind_ok {m : Fallible ε σ α} {f : α → Fallible ε σ β} {s s' : σ}
    {a : α} (h : m s = (.ok a, s')) : (m >>= f) s = f a s' := by
  rw [run_bind, h]

theorem run_bind_error {m : Fallible ε σ α} {f : α → Fallible ε σ β} {s s' : σ}
    {e : ε} (h : m s = (.error e, s')) : (m >>= f) s = (.error e, s') := by
  rw [run_bind, h]

theorem run_bind_pure (m : Fallible ε σ α) (g : α → β) (s : σ) :
    (m >>= fun a => pure (g a)) s = ((m s).1.map g, (m s).2) := by
  rw [run_bind]
  rcases m s with ⟨_ | _, _⟩
  · rfl
  · rfl

theorem run_if_pos {c : Prop} [Decidable c] (h : c) (m m' : Fallible ε σ α) (s : σ) :
    (if c then m else m') s = m s := by
  rw [if_pos h]

theorem run_if_neg {c : Prop} [Decidable c] (h : ¬ c) (m m' : Fallible ε σ α) (s : σ) :
    (if c then m else m') s = m' s := by
  rw [if_neg h]

instance : LawfulMonad (Fallible ε σ) := LawfulMonad.mk' _
  (by
    intro α m; funext s
    show (m >>= pure) s = m s
    rw [run_bind]
    rcases m s with ⟨_ | _, _⟩ <;> rfl)
  (fun _ _ => rfl)
  (by
    intro α β γ m f g; funext s
    simp only [run_bind]
    rcases m s with ⟨_ | _, _⟩ <;> rfl)

/-! ## Triples -/

/-- From `P`, a run that answers ends in `Q` and a run that stops ends in
`E`. -/
def Triple (P : σ → Prop) (m : Fallible ε σ α) (Q : α → σ → Prop)
    (E : σ → Prop) : Prop :=
  ∀ s, P s → match m s with
    | (.ok a, s') => Q a s'
    | (.error _, s') => E s'

namespace Triple

variable {P P' : σ → Prop} {m : Fallible ε σ α} {Q Q' : α → σ → Prop}
  {E E' : σ → Prop}

theorem ok (h : Triple P m Q E) {s s' : σ} {a : α} (hP : P s)
    (hm : m s = (.ok a, s')) : Q a s' := by
  have := h s hP
  rwa [hm] at this

theorem pure {a : α} (h : ∀ s, P s → Q a s) :
    Triple P (Pure.pure a : Fallible ε σ α) Q E := fun s hP => h s hP

theorem throw {e : ε} (h : ∀ s, P s → E s) :
    Triple P (Fallible.throw e : Fallible ε σ α) Q E := fun s hP => h s hP

theorem ite {c : Prop} [Decidable c] {m' : Fallible ε σ α} (h : c → Triple P m Q E)
    (h' : ¬ c → Triple P m' Q E) : Triple P (if c then m else m') Q E := by
  by_cases hc : c
  · rw [if_pos hc]
    exact h hc
  · rw [if_neg hc]
    exact h' hc

theorem bind {f : α → Fallible ε σ β} {R : β → σ → Prop}
    (hm : Triple P m Q E) (hf : ∀ a, Triple (Q a) (f a) R E) :
    Triple P (m >>= f) R E := by
  intro s hP
  have h := hm s hP
  rcases hs : m s with ⟨_ | a, s'⟩ <;> rw [hs] at h
  · rw [run_bind_error hs]; exact h
  · rw [run_bind_ok hs]; exact hf a s' h

theorem conseq (h : Triple P m Q E) (hP : ∀ s, P' s → P s)
    (hQ : ∀ a s, Q a s → Q' a s) (hE : ∀ s, E s → E' s) :
    Triple P' m Q' E' := by
  intro s hs
  have h' := h s (hP s hs)
  rcases hm : m s with ⟨_ | a, s'⟩ <;> rw [hm] at h'
  · exact hE s' h'
  · exact hQ a s' h'

/-- A loop over a list: `I` of what is still to come holds before each round
and, with nothing to come, at the end. -/
theorem forM {ι : Type} {f : ι → Fallible ε σ PUnit} {I : List ι → σ → Prop}
    (hf : ∀ x xs, Triple (I (x :: xs)) (f x) (fun _ => I xs) E) :
    ∀ xs : List ι, Triple (I xs) (xs.forM f) (fun _ => I []) E
  | [] => pure fun _ h => h
  | x :: xs => bind (hf x xs) fun _ => forM hf xs

end Triple

/-! ## Two runs side by side -/

/-- From states that `R` relates, the computation answers the same, and ends in
states that `R` relates. -/
def Blind (R : σ → σ → Prop) (m : Fallible ε σ α) : Prop :=
  ∀ s s', R s s' → (m s).1 = (m s').1 ∧ R (m s).2 (m s').2

namespace Blind

variable {R : σ → σ → Prop} {m : Fallible ε σ α}

theorem pure (a : α) : Blind R (Pure.pure a : Fallible ε σ α) := fun _ _ h => ⟨rfl, h⟩

theorem throw (e : ε) : Blind R (Fallible.throw e : Fallible ε σ α) := fun _ _ h => ⟨rfl, h⟩

theorem bind {f : α → Fallible ε σ β} (hm : Blind R m) (hf : ∀ a, Blind R (f a)) :
    Blind R (m >>= f) := by
  intro s s' h
  obtain ⟨ho, hR⟩ := hm s s' h
  rw [run_bind, run_bind]
  rcases hs : m s with ⟨e | a, t⟩ <;> rcases hs' : m s' with ⟨e' | a', t'⟩ <;>
    rw [hs, hs'] at ho hR <;> cases ho
  · exact ⟨rfl, hR⟩
  · exact hf a t t' hR

theorem forM {ι : Type} {f : ι → Fallible ε σ PUnit} (hf : ∀ x, Blind R (f x)) (xs : List ι) :
    Blind R (xs.forM f) := by
  induction xs with
  | nil => exact pure _
  | cons x xs ih => exact (hf x).bind fun _ => ih

theorem foldlM {ι : Type} {f : β → ι → Fallible ε σ β} (hf : ∀ b x, Blind R (f b x))
    (xs : List ι) : ∀ b, Blind R (xs.foldlM f b) := by
  induction xs with
  | nil => exact fun b => pure b
  | cons x xs ih =>
      intro b
      rw [List.foldlM_cons]
      exact (hf b x).bind ih

end Blind

end Fallible

end TablesOS
